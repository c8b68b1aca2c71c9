import MiniOS.Chat.Editor

/-!
# Which lines are commands

`str_equal` once more, on two pointers and with every address that it reads on record, and
what `chat_try_command` does with any line.
-/

open MiniOS.Lib

namespace MiniOS.Chat

/-! ## Strings behind pointers -/

/-- The state is the addresses read so far, oldest first, and the only fault is to run out of fuel. -/
abbrev Reader := Prog Unit (List Nat)

namespace Reader

def peek (mem : Nat → Byte) (p : Nat) : Reader Byte :=
  .stmt (fun reads => reads ++ [p]) fun _ => .ret (mem p)

/-- `*a && *b`: no look at `*b` behind the end of `a`. -/
def bothLeft (mem : Nat → Byte) (a b : Nat) : Reader Bool := do
  if (← peek mem a) = 0#8 then
    return false
  else
    return decide ((← peek mem b) ≠ 0#8)

def str_equal (mem : Nat → Byte) : Nat → Nat → Nat → Reader Bool
  | 0, _, _ => .fault ()
  | fuel + 1, a, b => do
    if ← bothLeft mem a b then
      if (← peek mem a) ≠ (← peek mem b) then
        return false
      else
        str_equal mem fuel (a + 1) (b + 1)
    else
      return decide ((← peek mem a) = (← peek mem b))

end Reader

def Holds (mem : Nat → Byte) : Nat → List Byte → Prop
  | _, [] => True
  | p, b :: bs => mem p = b ∧ Holds mem (p + 1) bs

/-- A NUL-terminated string at `p`. -/
def StringAt (mem : Nat → Byte) (p : Nat) (s : List Byte) : Prop := 0#8 ∉ s ∧ Holds mem p (s ++ [0#8])

theorem StringAt.isCString {mem : Nat → Byte} {p : Nat} {s : List Byte} (h : StringAt mem p s) :
    IsCString (s ++ [0#8]) s := ⟨h.1, [], rfl⟩

section

variable {mem : Nat → Byte} {a b : Nat} {reads : List Nat}

@[simp] theorem wp_peek {p : Nat} {Q : Byte → List Nat → Prop} :
    (Reader.peek mem p).wp Q reads ↔ Q (mem p) (reads ++ [p]) := Prog.wp_of_exec rfl

theorem wp_bothLeft {Q : Bool → List Nat → Prop} : (Reader.bothLeft mem a b).wp Q reads ↔
    if mem a = 0#8 then Q false (reads ++ [a]) else Q (decide (mem b ≠ 0#8)) (reads ++ [a, b]) := by
  unfold Reader.bothLeft
  rw [Prog.wp_bind, wp_peek]
  split
  · exact Prog.wp_pure false
  · rw [Prog.wp_bind, wp_peek, List.append_assoc]
    exact Prog.wp_pure _

/-- One round: both bytes for the condition, the second only if there is need, and both again. -/
theorem wp_str_equal {fuel : Nat} {Q : Bool → List Nat → Prop} :
    (Reader.str_equal mem (fuel + 1) a b).wp Q reads ↔
      if mem a = 0#8 then Q (decide (mem a = mem b)) (reads ++ [a, a, b])
      else if mem b = 0#8 then Q (decide (mem a = mem b)) (reads ++ [a, b, a, b])
      else if mem a ≠ mem b then Q false (reads ++ [a, b, a, b])
      else (Reader.str_equal mem fuel (a + 1) (b + 1)).wp Q (reads ++ [a, b, a, b]) := by
  rw [Reader.str_equal, Prog.wp_bind, wp_bothLeft]
  split
  · simp [-bind_pure_comp, Prog.wp_bind]
  · by_cases hb : mem b = 0#8
    · simp [-bind_pure_comp, Prog.wp_bind, hb]
    · by_cases hab : mem a = mem b
      · simp [Prog.wp_bind, hb, hab]
      · simp [Prog.wp_bind, hb, hab]

/-- On two arrays in memory the loop does what `str_equal` does on the arrays, and reads only what is
allowed if all of both arrays is. -/
theorem str_equal_reads {allowed : Nat → Prop} {as bs : List Byte} {r : Bool} {fuel : Nat}
    (h : str_equal as bs = some r) (ha : Holds mem a as) (hb : Holds mem b bs)
    (has : ∀ i < as.length, allowed (a + i)) (hbs : ∀ i < bs.length, allowed (b + i))
    (hfuel : as.length ≤ fuel) (hreads : ∀ p ∈ reads, allowed p) :
    (Reader.str_equal mem fuel a b).wp (fun r' reads' => r' = r ∧ ∀ p ∈ reads', allowed p) reads := by
  induction as generalizing a b bs fuel reads with
  | nil => simp [str_equal] at h
  | cons x as ih =>
    cases bs with
    | nil => simp [str_equal] at h
    | cons y bs =>
      obtain ⟨rfl, ha⟩ := ha
      obtain ⟨rfl, hb⟩ := hb
      obtain ⟨fuel, rfl⟩ : ∃ n, fuel = n + 1 := ⟨fuel - 1, by rw [List.length_cons] at hfuel; omega⟩
      have hallowed : allowed a ∧ allowed b := ⟨has 0 (by simp), hbs 0 (by simp)⟩
      have hround : ∀ p ∈ reads ++ [a, b, a, b], allowed p := by
        simpa [or_imp, forall_and, hallowed] using hreads
      unfold str_equal at h
      rw [wp_str_equal]
      split_ifs with hx hy hxy
      · rw [if_neg fun hc => hc.1 hx] at h
        exact ⟨Option.some.inj h, by simpa [or_imp, forall_and, hallowed] using hreads⟩
      · rw [if_neg fun hc => hc.2 hy] at h
        exact ⟨Option.some.inj h, hround⟩
      · rw [if_pos ⟨hx, hy⟩, if_pos hxy] at h
        exact ⟨Option.some.inj h, hround⟩
      · rw [if_pos ⟨hx, hy⟩, if_neg hxy] at h
        refine ih h ha hb (fun i hi => ?_) (fun i hi => ?_) ?_ hround
        · rw [Nat.add_assoc, Nat.add_comm 1]
          exact has (i + 1) (by simpa using hi)
        · rw [Nat.add_assoc, Nat.add_comm 1]
          exact hbs (i + 1) (by simpa using hi)
        · rw [List.length_cons] at hfuel
          omega

end

/-! ## Commands -/

theorem Command.name_inj {c c' : Command} (h : c.name = c'.name) : c = c' := by
  cases c <;> cases c' <;> first | rfl | exact absurd h (by decide)

theorem Command.run_first (user : User) (c : Command) : ∃ k : State → Action Bool,
    c.run user = .stmt (fun s => { s with events := s.events ++ [.command user c.name] }) k := ⟨_, rfl⟩

/-- What a program puts on record first tells which command it is. -/
theorem Command.run_inj {user : User} {c c' : Command} (h : c.run user = c'.run user) : c = c' := by
  obtain ⟨k, hk⟩ := c.run_first user
  obtain ⟨k', hk'⟩ := c'.run_first user
  rw [hk, hk'] at h
  have hevents := congrArg State.events (congrFun (Prog.stmt.inj h).1 powerOn)
  have hname := List.append_cancel_left hevents
  apply Command.name_inj
  simpa using hname

theorem Command.run_ne (user : User) (c : Command) : c.run user ≠ pure false := by
  obtain ⟨k, hk⟩ := c.run_first user
  rw [hk]
  rintro ⟨⟩

theorem chat_try_command_iff {user : User} {line m : List Byte} (hline : IsCString line m) (c : Command) :
    chat_try_command user line = c.run user ↔ m = c.name := by
  constructor
  · intro h
    by_contra hne
    by_cases hother : ∀ d : Command, m ≠ d.name
    · rw [chat_try_command_other hline hother] at h
      exact c.run_ne user h.symm
    · obtain ⟨d, hd⟩ := not_forall_not.mp hother
      subst hd
      rw [chat_try_command_name hline] at h
      rw [Command.run_inj h] at hne
      exact hne rfl
  · rintro rfl
    exact chat_try_command_name hline

/-- **Exact commands.** `str_equal` compares the strings and reads nothing behind either NUL. A line that
is the name of a command runs that command alone, statement for statement, and any other line does
nothing and returns 0. -/
theorem commands_exact :
    (∀ (mem : Nat → Byte) (a b : Nat) (s t : List Byte), StringAt mem a s → StringAt mem b t →
      ∃ n, ∀ fuel ≥ n, (Reader.str_equal mem fuel a b).wp (fun r reads => r = decide (s = t) ∧
        ∀ p ∈ reads, (a ≤ p ∧ p ≤ a + s.length) ∨ (b ≤ p ∧ p ≤ b + t.length)) []) ∧
    (∀ as bs s t : List Byte, IsCString as s → IsCString bs t → str_equal as bs = some (decide (s = t))) ∧
    ∀ (user : User) (line m : List Byte), IsCString line m →
      (∀ c : Command, chat_try_command user line = c.run user ↔ m = c.name) ∧
      (∀ c c' : Command, chat_try_command user line = c.run user →
        chat_try_command user line = c'.run user → c = c') ∧
      ((∀ c : Command, m ≠ c.name) → ∀ s, (chat_try_command user line).exec s = .ok (false, s)) := by
  refine ⟨?_, fun as bs s t hs ht => str_equal_spec hs ht, ?_⟩
  · intro mem a b s t hs ht
    refine ⟨(s ++ [0#8]).length, fun fuel hfuel => ?_⟩
    apply str_equal_reads (str_equal_spec hs.isCString ht.isCString) hs.2 ht.2 _ _ hfuel (by simp)
    · intro i hi
      rw [List.length_append, List.length_singleton] at hi
      exact Or.inl ⟨Nat.le_add_right a i, by omega⟩
    · intro i hi
      rw [List.length_append, List.length_singleton] at hi
      exact Or.inr ⟨Nat.le_add_right b i, by omega⟩
  · intro user line m hline
    refine ⟨chat_try_command_iff hline, fun c c' hc hc' => ?_, fun hother s => ?_⟩
    · exact Command.run_inj (hc.symm.trans hc')
    · rw [chat_try_command_other hline hother]
      rfl

/-- A name, and a longer string right behind it. -/
def helpMemory (p : Nat) : Byte := (lit "/help" ++ lit "/helps").getD p 0#8

/-- `/help` is a command, and `/helps` is a message. -/
theorem commands_exact_help :
    (∃ n, ∀ fuel ≥ n, (Reader.str_equal helpMemory fuel 0 6).wp
      (fun r reads => r = false ∧ ∀ p ∈ reads, p ≤ 12) []) ∧
    chat_try_command .serial (lit "/help") = Command.help.run .serial ∧
    (chat_try_command .serial (lit "/helps")).exec powerOn = .ok (false, powerOn) := by
  have hhelp : StringAt helpMemory 0 (ascii "/help") := ⟨by decide, rfl, rfl, rfl, rfl, rfl, rfl, trivial⟩
  have hhelps : StringAt helpMemory 6 (ascii "/helps") :=
    ⟨by decide, rfl, rfl, rfl, rfl, rfl, rfl, rfl, trivial⟩
  refine ⟨?_, ?_, ?_⟩
  · obtain ⟨n, hn⟩ := commands_exact.1 helpMemory 0 6 _ _ hhelp hhelps
    refine ⟨n, fun fuel hfuel => Prog.wp_mono (hn fuel hfuel) ?_⟩
    rintro r reads ⟨hr, hreads⟩
    refine ⟨hr.trans (by decide), fun p hp => ?_⟩
    rcases hreads p hp with ⟨-, hle⟩ | ⟨-, hle⟩
    · exact hle.trans (by decide)
    · exact hle
  · exact ((commands_exact.2.2 .serial _ _ isCString_help).1 .help).mpr rfl
  · exact (commands_exact.2.2 .serial _ _ (lit_isCString (s := "/helps") (by decide))).2.2
      (by rintro ⟨⟩ <;> decide) powerOn

end MiniOS.Chat
