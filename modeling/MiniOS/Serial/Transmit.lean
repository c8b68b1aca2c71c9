import MiniOS.Serial.Driver

/-!
# What is printed arrives

The line carries the messages of `serial_print` in their order, whatever the chip does meanwhile.
-/

open MiniOS.Lib

namespace MiniOS.Serial

/-! ## Sending -/

/-- A byte at 115200 baud, with eight bits, no parity and one stop bit. -/
def asSetUp (b : Byte) : Frame := ⟨0x0001#16, 0x03#7, b⟩

theorem frame_final (ier : Byte) (b : Byte) :
    Config.frame ⟨ier, 0x03#8, 0x03#8, 0x01#8, 0x00#8, true⟩ b = asSetUp b := by
  have hdivisor : (0x00#8 ++ 0x01#8 : BitVec 16) = 0x0001#16 := by decide
  have hmask : 0x1F#8 <<< (0x03#8 &&& 3#8) ||| (1#8 <<< (0x03#8 &&& 3#8) - 1#8) = 0xFF#8 := by decide
  have hdata : b &&& 0xFF#8 = b := BitVec.and_allOnes
  unfold Config.frame asSetUp
  dsimp only
  rw [hdivisor, hmask, hdata]
  rfl

structure Driver.Sending (s : Driver) : Prop where
  empty : s.control = .setup 6 → s.uart.tx = []
  short : s.control.past = true → s.uart.tx.length ≤ 1
  ready : ∀ mensagem current, s.control = .serial_write_char mensagem current → s.uart.tx = []
  sent : s.printed.map asSetUp <:+ s.uart.line ++ s.uart.pending.map asSetUp

/-- A step that leaves alone what is sent. -/
theorem Driver.Sending.keep {s t : Driver} (h : s.Sending) (hs : s.control.past = true)
    (ht : t.control.past = true) (hprinted : t.printed = s.printed) (htx : t.uart.tx = s.uart.tx)
    (hshift : t.uart.shift = s.uart.shift) (hline : t.uart.line = s.uart.line)
    (hready : ∀ mensagem current, t.control = .serial_write_char mensagem current → s.uart.tx = []) :
    t.Sending := by
  refine ⟨fun hc => ?_, fun _ => htx ▸ h.short hs, fun m i hc => htx ▸ hready m i hc, ?_⟩
  · rw [hc] at ht
    cases ht
  · unfold Uart.pending
    rw [hprinted, htx, hshift, hline]
    exact h.sent

theorem lineStatus_ready (u : Uart) : u.lineStatus &&& 0x20#8 = 0#8 ↔ u.tx ≠ [] := by
  unfold Uart.lineStatus
  by_cases htx : u.tx = []
  · simp only [htx, if_true, true_and]
    split <;> split <;> split <;> simp
  · simp only [htx, if_false, false_and]
    split <;> split <;> simp [htx]

theorem inp_tx (u : Uart) (junk : Byte) (port : Port) :
    (u.inp junk port).2.tx = u.tx ∧ (u.inp junk port).2.shift = u.shift ∧
      (u.inp junk port).2.line = u.line := by
  unfold Uart.inp
  split
  · exact ⟨rfl, rfl, rfl⟩
  split <;> exact ⟨rfl, rfl, rfl⟩

/-- Both FIFOs are empty then, switched on or not. -/
theorem cleared_tx (u : Uart) : (u.out UART_FIFO_CTRL 0xC7#8).tx = [] := by
  show u.cleared 0xC7#8 2 u.tx = []
  unfold Uart.cleared
  rw [if_pos (Or.inr ⟨rfl, rfl⟩)]

theorem Driver.Sending.out_tx {c : Config} {s : Driver} (h : s.Sending) (hc : s.SetUp c)
    {mensagem : List Byte} {current : Nat} (hk : s.control = .serial_write_char mensagem current)
    (b : Byte) : s.uart.tx = [] ∧ (s.uart.out UART_DATA b).tx = [b] := by
  have htx := h.ready _ _ hk
  have hpast : s.control.past = true := by
    rw [hk]
    rfl
  have hdlab := (hc.cleared (Nat.le_of_lt (Control.past_done hpast).ge)).2
  refine ⟨htx, ?_⟩
  show (if _ then s.uart.accept s.uart.tx b else _) = _
  rw [if_pos ⟨rfl, hdlab⟩, htx, Uart.accept, hc.final hpast]
  rfl

/-- Where the transmitter was ready, the byte comes after everything that is on its way. -/
theorem Driver.Sending.write {c : Config} {s : Driver} (h : s.Sending) (hc : s.SetUp c)
    {mensagem : List Byte} {current : Nat} (hk : s.control = .serial_write_char mensagem current) (b : Byte)
    (control : Control) (hcontrol' : control.past = true)
    (hcontrol : ∀ m i, control ≠ .serial_write_char m i) :
    Driver.Sending ⟨s.uart.out UART_DATA b, control, s.printed ++ [b], s.got⟩ := by
  obtain ⟨htx, hout⟩ := h.out_tx hc hk b
  refine ⟨fun h6 => ?_, fun _ => ?_, fun m i hm => absurd hm (hcontrol m i), ?_⟩
  · obtain rfl : control = .setup 6 := h6
    cases hcontrol'
  · exact (congrArg List.length hout).le
  · have hsent := h.sent
    unfold Uart.pending at hsent ⊢
    rw [htx, List.append_nil] at hsent
    obtain ⟨old, hold⟩ := hsent
    show _ <:+ s.uart.line ++ (s.uart.shift.toList ++ (s.uart.out UART_DATA b).tx).map asSetUp
    rw [hout, List.map_append, List.map_append, ← List.append_assoc, ← hold, List.append_assoc]
    exact List.suffix_append _ _

theorem Driver.Sending.chip {c : Config} {s : Driver} (h : s.Sending) (hc : s.SetUp c) {u : Uart}
    (hm : s.uart.Move u) : Driver.Sending { s with uart := u } := by
  obtain ⟨hempty, hshort, hready, hsent⟩ := h
  unfold Uart.pending at hsent
  cases hm with
  | @load b tx htx hshift =>
    rw [htx] at hempty hshort hready hsent
    rw [hshift] at hsent
    refine ⟨fun h6 => absurd (hempty h6) (List.cons_ne_nil b tx), fun hpast => ?_,
      fun m i hm => absurd (hready m i hm) (List.cons_ne_nil b tx), hsent⟩
    exact (Nat.le_succ tx.length).trans (hshort hpast)
  | @send b hshift =>
    refine ⟨hempty, hshort, hready, ?_⟩
    cases hpast : s.control.past with
    | false =>
      rw [(hc.early hpast).1]
      exact List.nil_suffix
    | true =>
      rw [hshift] at hsent
      show _ <:+ (s.uart.line ++ [s.uart.config.frame b]) ++ s.uart.tx.map asSetUp
      rw [hc.final hpast, frame_final, List.append_assoc]
      exact hsent
  | @loop b hshift hloop =>
    refine ⟨hempty, hshort, hready, ?_⟩
    cases hpast : s.control.past with
    | false =>
      rw [(hc.early hpast).1]
      exact List.nil_suffix
    | true =>
      exact absurd (hloop.symm.trans (hc.loopback hpast)) (by decide)
  | hear b => exact ⟨hempty, hshort, hready, hsent⟩

theorem Driver.Sending.step {c : Config} {s t : Driver} {l : Label} (h : s.Sending) (hc : s.SetUp c)
    (hs : Step s l t) : t.Sending := by
  cases hs with
  | @setup k port data hk hw =>
    have hlt := hc.setup_lt k hk
    have hprinted := (hc.early (by rw [hk]; rfl)).1
    refine ⟨fun h6 => ?_, fun hidle => ?_, fun m i hwrite => ?_, ?_⟩
    · dsimp only at h6
      split at h6
      · obtain rfl : k = 5 := Nat.succ.inj (Control.setup.inj h6)
        obtain ⟨rfl, rfl⟩ := Prod.mk.inj (Option.some.inj hw)
        exact cleared_tx s.uart
      · cases h6
    · have hlast : k = 6 := by
        by_contra hne
        have : k + 1 < serial_initialize.length := by
          show k + 1 < 7
          have : k < 7 := hlt
          omega
        rw [if_pos this] at hidle
        cases hidle
      subst hlast
      obtain ⟨rfl, rfl⟩ := Prod.mk.inj (Option.some.inj hw)
      have htx : (s.uart.out UART_MODEM_CTRL 0x03#8).tx = s.uart.tx := rfl
      rw [htx, h.empty hk]
      exact Nat.zero_le 1
    · dsimp only at hwrite
      split at hwrite <;> cases hwrite
    · rw [hprinted]
      exact List.nil_suffix
  | print mensagem hk =>
    exact h.keep (by rw [hk]; rfl) rfl rfl rfl rfl rfl fun _ _ => Control.noConfusion
  | test hk =>
    refine h.keep (by rw [hk]; rfl) (by dsimp only; split <;> rfl) rfl rfl rfl rfl fun m i => ?_
    dsimp only
    split <;> exact Control.noConfusion
  | poll junk hk =>
    obtain ⟨htx, hshift, hline⟩ := inp_tx s.uart junk UART_LINE_STAT
    refine h.keep (by rw [hk]; rfl) (by dsimp only; split <;> rfl) rfl htx hshift hline fun m i hwrite => ?_
    dsimp only at hwrite
    split at hwrite
    · cases hwrite
    · rename_i hready
      exact not_not.mp fun hne => hready ((lineStatus_ready _).mpr hne)
  | write hk => exact h.write hc hk _ _ rfl fun _ _ => Control.noConfusion
  | rx_ready junk hk =>
    obtain ⟨htx, hshift, hline⟩ := inp_tx s.uart junk UART_LINE_STAT
    refine h.keep (by rw [hk]; rfl) (by dsimp only; split <;> rfl) rfl htx hshift hline fun m i => ?_
    dsimp only
    split <;> exact Control.noConfusion
  | read junk hk =>
    obtain ⟨htx, hshift, hline⟩ := inp_tx s.uart junk UART_DATA
    exact h.keep (by rw [hk]; rfl) rfl rfl htx hshift hline fun _ _ => Control.noConfusion
  | chip hm => exact h.chip hc hm

theorem Driver.sending_run {u₀ : Uart} {ls : List Label} {s : Driver}
    (h : Run Step ⟨u₀, .setup 0, [], []⟩ ls s) : s.Sending :=
  (h.state_inv (fun s => s.SetUp u₀.config ∧ s.Sending)
    ⟨Driver.setUp_run .nil, ⟨nofun, nofun, fun _ _ => nofun, List.nil_suffix⟩⟩
    fun _ _ _ h hs => ⟨h.1.step hs, h.2.step h.1 hs⟩).2

/-! ## The messages -/

def Label.message : Label → Option (List Byte)
  | .print mensagem => some mensagem
  | _ => none

def messages (ls : List Label) : List (List Byte) := ls.filterMap Label.message

/-- What the rest of the kernel takes `serial_print` for: whole messages, one after the other. -/
def log (ls : List Label) : MiniOS.Serial := (messages ls).foldl serial_print []

theorem messages_snoc (ls : List Label) (l : Label) :
    messages (ls ++ [l]) = messages ls ++ l.message.toList := by
  unfold messages
  rw [List.filterMap_append]
  cases h : l.message <;> simp [h]

theorem log_print (ls : List Label) (mensagem : List Byte) :
    log (ls ++ [.print mensagem]) = log ls ++ cString mensagem := by
  unfold log
  rw [messages_snoc, List.foldl_append]
  rfl

theorem log_other (ls : List Label) {l : Label} (h : l.message = none) : log (ls ++ [l]) = log ls := by
  unfold log
  rw [messages_snoc, h, Option.toList_none, List.append_nil]

/-- The loop of `serial_print` stops where the C string does. -/
theorem charAt_cString {mensagem : List Byte} {current : Nat} (h : current ≤ (cString mensagem).length) :
    if charAt mensagem current ≠ 0#8 then (cString mensagem)[current]? = some (charAt mensagem current)
    else current = (cString mensagem).length := by
  induction mensagem generalizing current with
  | nil =>
    obtain rfl := Nat.le_zero.mp h
    rfl
  | cons b rest ih =>
    by_cases hb : b = 0#8
    · have hnil : cString (b :: rest) = [] := by simp [cString, hb]
      rw [hnil] at h ⊢
      obtain rfl := Nat.le_zero.mp h
      have hzero : ¬charAt (b :: rest) 0 ≠ 0#8 := not_not.mpr hb
      rw [if_neg hzero]
      rfl
    · have hcons : cString (b :: rest) = b :: cString rest := by simp [cString, hb]
      rw [hcons] at h ⊢
      cases current with
      | zero => exact (if_pos hb).mpr rfl
      | succ i =>
        have hrest := ih (Nat.le_of_succ_le_succ h)
        show if charAt rest i ≠ 0#8 then (cString rest)[i]? = some (charAt rest i)
          else i + 1 = (cString rest).length + 1
        split
        · rwa [if_pos ‹_›] at hrest
        · rw [if_neg ‹_›] at hrest
          rw [hrest]

/-- The message being sent, and how far. -/
def Control.part : Control → Option (List Byte × Nat)
  | .serial_print mensagem current => some (mensagem, current)
  | .is_transmit_buffer_ready mensagem current => some (mensagem, current)
  | .serial_write_char mensagem current => some (mensagem, current)
  | _ => none

/-- Where a character is on its way to the chip. -/
def Control.writing : Control → Bool
  | .is_transmit_buffer_ready _ _ => true
  | .serial_write_char _ _ => true
  | _ => false

structure Driver.Printing (ls : List Label) (s : Driver) : Prop where
  whole : s.control.part = none → s.printed = log ls
  part : ∀ mensagem current, s.control.part = some (mensagem, current) →
    current ≤ (cString mensagem).length ∧
      log ls = s.printed ++ (cString mensagem).drop current
  char : ∀ mensagem current, s.control.part = some (mensagem, current) → s.control.writing = true →
    (cString mensagem)[current]? = some (charAt mensagem current)

theorem Driver.Printing.step {ls : List Label} {s t : Driver} {l : Label} (h : s.Printing ls)
    (hs : Step s l t) : t.Printing (ls ++ [l]) := by
  obtain ⟨hwhole, hpart, hchar⟩ := h
  cases hs with
  | @setup k port data hk hw =>
    refine ⟨fun _ => ?_, fun m i hm => ?_, fun m i hm => ?_⟩
    · rw [log_other ls rfl]
      exact hwhole (by rw [hk]; rfl)
    all_goals
      dsimp only at hm
      split at hm <;> cases hm
  | print mensagem hk =>
    refine ⟨nofun, fun m i hm => ?_, fun _ _ _ => nofun⟩
    obtain ⟨rfl, rfl⟩ := Prod.mk.inj (Option.some.inj hm)
    refine ⟨Nat.zero_le _, ?_⟩
    rw [log_print, ← hwhole (by rw [hk]; rfl)]
    rfl
  | @test mensagem current hk =>
    obtain ⟨hle, hlog⟩ := hpart mensagem current (by rw [hk]; rfl)
    have hnext := charAt_cString hle
    rw [← log_other ls (l := Label.test) rfl] at hlog
    by_cases hzero : charAt mensagem current ≠ 0#8
    · rw [if_pos hzero] at hnext
      refine ⟨fun hp => ?_, fun m i hm => ?_, fun m i hm _ => ?_⟩
      · dsimp only at hp
        rw [if_pos hzero] at hp
        cases hp
      all_goals
        dsimp only at hm
        rw [if_pos hzero] at hm
        obtain ⟨rfl, rfl⟩ := Prod.mk.inj (Option.some.inj hm)
      · exact ⟨hle, hlog⟩
      · exact hnext
    · rw [if_neg hzero] at hnext
      refine ⟨fun _ => ?_, fun m i hm => ?_, fun m i hm => ?_⟩
      · rw [hlog, hnext, List.drop_length, List.append_nil]
      all_goals
        dsimp only at hm
        rw [if_neg hzero] at hm
        cases hm
  | @poll mensagem current junk hk =>
    have hsame := hpart mensagem current (by rw [hk]; rfl)
    have hnext := hchar mensagem current (by rw [hk]; rfl) (by rw [hk]; rfl)
    rw [← log_other ls (l := Label.poll) rfl] at hsame
    refine ⟨fun hp => ?_, fun m i hm => ?_, fun m i hm _ => ?_⟩
    · dsimp only at hp
      split at hp <;> cases hp
    all_goals
      have hmi : (mensagem, current) = (m, i) := by
        dsimp only at hm
        split at hm <;> exact Option.some.inj hm
      obtain ⟨rfl, rfl⟩ := Prod.mk.inj hmi
    · exact hsame
    · exact hnext
  | @write mensagem current hk =>
    obtain ⟨hle, hlog⟩ := hpart mensagem current (by rw [hk]; rfl)
    have hnext := hchar mensagem current (by rw [hk]; rfl) (by rw [hk]; rfl)
    obtain ⟨hlt, hget⟩ := List.getElem?_eq_some_iff.mp hnext
    refine ⟨nofun, fun m i hm => ?_, fun _ _ _ => nofun⟩
    obtain ⟨rfl, rfl⟩ := Prod.mk.inj (Option.some.inj hm)
    refine ⟨hlt, ?_⟩
    rw [log_other ls rfl, hlog, List.drop_eq_getElem_cons hlt, hget, List.append_assoc]
    rfl
  | rx_ready junk hk =>
    refine ⟨fun _ => ?_, fun m i hm => ?_, fun m i hm => ?_⟩
    · rw [log_other ls rfl]
      exact hwhole (by rw [hk]; rfl)
    all_goals
      dsimp only at hm
      split at hm <;> cases hm
  | read junk hk =>
    refine ⟨fun _ => ?_, fun _ _ => nofun, fun _ _ => nofun⟩
    rw [log_other ls rfl]
    exact hwhole (by rw [hk]; rfl)
  | chip hm =>
    have hlog := log_other ls (l := Label.chip) rfl
    exact ⟨fun hp => hlog ▸ hwhole hp, fun m i hp => hlog ▸ hpart m i hp, hchar⟩

theorem Driver.printing_run {u₀ : Uart} {ls : List Label} {s : Driver}
    (h : Run Step ⟨u₀, .setup 0, [], []⟩ ls s) : s.Printing ls :=
  h.inv (fun ls s => s.Printing ls) ⟨fun _ => rfl, fun _ _ => nofun, fun _ _ => nofun⟩
    fun _ _ _ _ hp hs => hp.step hs

/-! ## Until it is sent -/

/-- A character takes a test, a poll and a write, and two steps of the chip. -/
def Control.left : Control → Nat
  | .serial_print mensagem current => 5 * ((cString mensagem).length - current) + 1
  | .is_transmit_buffer_ready mensagem current => 5 * ((cString mensagem).length - current)
  | .serial_write_char mensagem current => 5 * ((cString mensagem).length - current) - 1
  | _ => 0

def Uart.left (u : Uart) : Nat := 2 * u.tx.length + u.shift.toList.length

def Driver.rank (s : Driver) : Nat := s.control.left + s.uart.left

theorem inp_left (u : Uart) (junk : Byte) (port : Port) : (u.inp junk port).2.left = u.left := by
  obtain ⟨htx, hshift, -⟩ := inp_tx u junk port
  unfold Uart.left
  rw [htx, hshift]

theorem Uart.Move.left {u v : Uart} (h : u.Move v) : v.left ≤ u.left := by
  cases h with
  | @load b tx htx hshift =>
    show 2 * tx.length + 1 ≤ 2 * u.tx.length + u.shift.toList.length
    rw [htx, hshift]
    exact Nat.le_succ _
  | send => exact Nat.add_le_add_left (Nat.zero_le _) _
  | loop => exact Nat.add_le_add_left (Nat.zero_le _) _
  | hear b => exact le_rfl

/-- Only a new message makes more to do. -/
theorem Driver.rank_le {c : Config} {ls : List Label} {s t : Driver} {l : Label} (hc : s.SetUp c)
    (hsend : s.Sending) (hprint : s.Printing ls) (hpast : s.control.past = true) (hs : Step s l t)
    (hl : l.message = none) : t.rank ≤ s.rank := by
  unfold Driver.rank
  cases hs with
  | setup hk =>
    rw [hk] at hpast
    cases hpast
  | print => cases hl
  | @test mensagem current hk =>
    refine Nat.add_le_add_right ?_ _
    rw [hk]
    dsimp only
    split
    · exact Nat.le_succ _
    · exact Nat.zero_le _
  | @poll mensagem current junk hk =>
    dsimp only
    rw [inp_left, hk]
    refine Nat.add_le_add_right ?_ _
    split
    · exact le_rfl
    · exact Nat.sub_le _ _
  | @write mensagem current hk =>
    have hnext := hprint.char mensagem current (by rw [hk]; rfl) (by rw [hk]; rfl)
    obtain ⟨hlt, -⟩ := List.getElem?_eq_some_iff.mp hnext
    obtain ⟨htx, hout⟩ := hsend.out_tx hc hk (charAt mensagem current)
    have hshift : (s.uart.out UART_DATA (charAt mensagem current)).shift = s.uart.shift := rfl
    unfold Uart.left
    rw [hk, hout, hshift, htx]
    show 5 * ((cString mensagem).length - (current + 1)) + 1 + (2 * 1 + s.uart.shift.toList.length) ≤
      5 * ((cString mensagem).length - current) - 1 + (2 * 0 + s.uart.shift.toList.length)
    omega
  | rx_ready junk hk =>
    dsimp only
    rw [inp_left, hk]
    refine Nat.add_le_add_right ?_ _
    split <;> exact le_rfl
  | read junk hk =>
    dsimp only
    rw [inp_left, hk]
    exact le_rfl
  | chip hm => exact Nat.add_le_add_left hm.left _

/-- There is always something that goes on, of the kernel or of the chip. -/
theorem Driver.rank_lt {c : Config} {ls : List Label} {s : Driver} (hc : s.SetUp c)
    (hsend : s.Sending) (hprint : s.Printing ls) (hpast : s.control.past = true) (h : s.rank ≠ 0) :
    ∃ l t, Step s l t ∧ l.message = none ∧ t.rank < s.rank := by
  by_cases hchip : s.uart.left = 0
  · have htx : s.uart.tx = [] := by
      unfold Uart.left at hchip
      exact List.length_eq_zero_iff.mp (by omega)
    unfold Driver.rank at h
    cases hk : s.control with
    | serial_print mensagem current =>
      refine ⟨.test, _, .test hk, rfl, Nat.add_lt_add_right ?_ _⟩
      rw [hk]
      dsimp only
      split
      · exact Nat.lt_succ_self _
      · exact Nat.succ_pos _
    | is_transmit_buffer_ready mensagem current =>
      have hnext := hprint.char mensagem current (by rw [hk]; rfl) (by rw [hk]; rfl)
      obtain ⟨hlt, -⟩ := List.getElem?_eq_some_iff.mp hnext
      have hready : ¬(s.uart.inp 0#8 UART_LINE_STAT).1 &&& 0x20#8 = 0#8 :=
        fun hzero => (lineStatus_ready s.uart).mp hzero htx
      refine ⟨.poll, _, .poll 0#8 hk, rfl, ?_⟩
      unfold Driver.rank
      dsimp only
      rw [if_neg hready, inp_left, hk]
      refine Nat.add_lt_add_right ?_ _
      show 5 * ((cString mensagem).length - current) - 1 < 5 * ((cString mensagem).length - current)
      omega
    | serial_write_char mensagem current =>
      have hnext := hprint.char mensagem current (by rw [hk]; rfl) (by rw [hk]; rfl)
      obtain ⟨hlt, -⟩ := List.getElem?_eq_some_iff.mp hnext
      obtain ⟨-, hout⟩ := hsend.out_tx hc hk (charAt mensagem current)
      have hshift : (s.uart.out UART_DATA (charAt mensagem current)).shift = s.uart.shift := rfl
      refine ⟨.write, _, .write hk, rfl, ?_⟩
      unfold Driver.rank Uart.left
      dsimp only
      rw [hk, hout, hshift, htx]
      show 5 * ((cString mensagem).length - (current + 1)) + 1 + (2 * 1 + s.uart.shift.toList.length) <
        5 * ((cString mensagem).length - current) - 1 + (2 * 0 + s.uart.shift.toList.length)
      omega
    | setup k =>
      rw [hk] at hpast
      cases hpast
    | idle =>
      rw [hk, hchip] at h
      exact absurd rfl h
    | serial_read_byte =>
      rw [hk, hchip] at h
      exact absurd rfl h
  · cases hshift : s.uart.shift with
    | some b =>
      refine ⟨.chip, _, .chip (.send hshift (hc.loopback hpast)), rfl, Nat.add_lt_add_left ?_ _⟩
      unfold Uart.left
      rw [hshift]
      exact Nat.lt_succ_self _
    | none =>
      cases htx : s.uart.tx with
      | nil =>
        unfold Uart.left at hchip
        rw [hshift, htx] at hchip
        exact absurd rfl hchip
      | cons b tx =>
        refine ⟨.chip, _, .chip (.load htx hshift), rfl, Nat.add_lt_add_left ?_ _⟩
        unfold Uart.left
        rw [hshift, htx]
        show 2 * tx.length + 1 < 2 * (tx.length + 1) + 0
        omega

theorem log_eq {ls ms : List Label} (h : ∀ l ∈ ms, l.message = none) : log (ls ++ ms) = log ls := by
  have hnone : messages ms = [] := List.filterMap_eq_nil_iff.mpr h
  have hsplit : messages (ls ++ ms) = messages ls ++ messages ms := List.filterMap_append
  unfold log
  rw [hsplit, hnone, List.append_nil]

theorem Driver.Printing.part_none {ls : List Label} {s : Driver} (h : s.Printing ls)
    (hleft : s.control.left = 0) : s.control.part = none := by
  cases hk : s.control with
  | serial_print m i =>
    rw [hk] at hleft
    cases hleft
  | is_transmit_buffer_ready m i =>
    have hnext := h.char m i (by rw [hk]; rfl) (by rw [hk]; rfl)
    obtain ⟨hlt, -⟩ := List.getElem?_eq_some_iff.mp hnext
    rw [hk] at hleft
    change 5 * ((cString m).length - i) = 0 at hleft
    omega
  | serial_write_char m i =>
    have hnext := h.char m i (by rw [hk]; rfl) (by rw [hk]; rfl)
    obtain ⟨hlt, -⟩ := List.getElem?_eq_some_iff.mp hnext
    rw [hk] at hleft
    change 5 * ((cString m).length - i) - 1 = 0 at hleft
    omega
  | _ => rfl

/-- With nothing left to do, everything is on the line. -/
theorem Driver.rank_zero {ls : List Label} {s : Driver} (hsend : s.Sending) (hprint : s.Printing ls)
    (h : s.rank = 0) : (log ls).map asSetUp <:+ s.uart.line := by
  obtain ⟨hcontrol, hchip⟩ := Nat.add_eq_zero_iff.mp h
  have hpending : s.uart.pending = [] := by
    unfold Uart.left at hchip
    unfold Uart.pending
    rw [List.append_eq_nil_iff, ← List.length_eq_zero_iff, ← List.length_eq_zero_iff]
    omega
  have hsent := hsend.sent
  rw [hpending, List.map_nil, List.append_nil] at hsent
  have hpart := hprint.part_none hcontrol
  rwa [← hprint.whole hpart]

theorem Driver.rank_run {u₀ : Uart} {ls ms : List Label} {s t : Driver}
    (h : Run Step ⟨u₀, .setup 0, [], []⟩ ls s) (hs : s.control.past = true) (hm : Run Step s ms t)
    (hnone : ∀ l ∈ ms, l.message = none) : t.control.past = true ∧ t.rank ≤ s.rank := by
  induction hm with
  | nil => exact ⟨hs, le_rfl⟩
  | snoc hm hstep ih =>
    obtain ⟨hms, hl⟩ := List.forall_mem_append.mp hnone
    obtain ⟨hpast, hrank⟩ := ih hms
    have hrun := h.append hm
    have hle := Driver.rank_le (Driver.setUp_run hrun) (Driver.sending_run hrun)
      (Driver.printing_run hrun) hpast hstep (hl _ List.mem_cons_self)
    exact ⟨hstep.past hpast, hle.trans hrank⟩

/-- Reached after `ls` and no further message. -/
def Onward (u₀ : Uart) (ls : List Label) (s : Driver) : Prop :=
  s.control.past = true ∧
    ∃ rs, Run Step ⟨u₀, .setup 0, [], []⟩ (ls ++ rs) s ∧ ∀ l ∈ rs, l.message = none

theorem Onward.rank_lt {u₀ : Uart} {ls : List Label} {s : Driver} (h : Onward u₀ ls s)
    (hrank : s.rank ≠ 0) : ∃ l t, Step s l t ∧ l.message = none ∧ Onward u₀ ls t ∧ t.rank < s.rank := by
  obtain ⟨hs, rs, hrun, hrs⟩ := h
  obtain ⟨l, t, ht, hl, hlt⟩ := Driver.rank_lt (Driver.setUp_run hrun)
    (Driver.sending_run hrun) (Driver.printing_run hrun) hs hrank
  refine ⟨l, t, ht, hl, ⟨ht.past hs, rs ++ [l], ?_, ?_⟩, hlt⟩
  · rw [← List.append_assoc]
    exact .snoc hrun ht
  · exact List.forall_mem_append.mpr ⟨hrs, by simpa using hl⟩

/-- **Nothing printed is lost, doubled or moved.** From whatever state the chip was in, after
`serial_initialize` it works at 115200 baud with eight bits and no parity, and in any order of the steps
of the kernel and the chip the end of what is sent or on its way is what was printed so far. -/
theorem printed_in_order {u₀ : Uart} {ls : List Label} {s : Driver}
    (h : Run Step ⟨u₀, .setup 0, [], []⟩ ls s) (hs : s.control.past = true) :
    s.uart.config = ⟨if u₀.config.dlab then u₀.config.ier else 0#8, 0x03#8, 0x03#8, 0x01#8, 0x00#8, true⟩ ∧
      (∃ rest, log ls = s.printed ++ rest ∧ (s.control.part = none → rest = [])) ∧
      s.printed.map asSetUp <:+ s.uart.line ++ s.uart.pending.map asSetUp := by
  have hprint := Driver.printing_run h
  refine ⟨(Driver.setUp_run h).final hs, ?_, (Driver.sending_run h).sent⟩
  cases hpart : s.control.part with
  | none => exact ⟨[], by rw [hprint.whole hpart, List.append_nil], fun _ => rfl⟩
  | some p => exact ⟨_, (hprint.part p.1 p.2 hpart).2, nofun⟩

/-- The second letter is written while the first is being shifted out. -/
theorem printed_in_order_letters :
    ∃ ls s, Run Step ⟨asReset, .setup 0, [], []⟩ ls s ∧ log ls = [0x4F#8, 0x4B#8] ∧
      s.printed = [0x4F#8, 0x4B#8] ∧ s.uart.line = [asSetUp 0x4F#8] ∧ s.uart.pending = [0x4B#8] ∧
      s.printed.map asSetUp <:+ s.uart.line ++ s.uart.pending.map asSetUp := by
  have hfirst := ((((setup_run asReset le_rfl).snoc (.print [0x4F#8, 0x4B#8] rfl)).snoc (.test rfl)).snoc (.poll 0#8 rfl)).snoc
    (.write rfl)
  have hsecond := ((((hfirst.snoc (.chip (.load rfl rfl))).snoc (.test rfl)).snoc (.poll 0#8 rfl)).snoc
    (.chip (.send rfl rfl))).snoc (.write rfl)
  exact ⟨_, _, hsecond, by decide, rfl, by decide, by decide, (printed_in_order hsecond rfl).2.2⟩

/-- **The spinlock can always be brought to its end.** Steps in any order never bring the end of the
printing further away, and wherever they lead there are steps, no more than there were left, that put the
whole of every message on the line. -/
theorem printed_arrives {u₀ : Uart} {ls ms : List Label} {s t : Driver}
    (h : Run Step ⟨u₀, .setup 0, [], []⟩ ls s) (hs : s.control.past = true) (hm : Run Step s ms t)
    (hnone : ∀ l ∈ ms, l.message = none) :
    t.rank ≤ s.rank ∧ ∃ rs v, Run Step t rs v ∧ (∀ l ∈ rs, l.message = none) ∧ rs.length ≤ s.rank ∧
      v.control.part = none ∧ (log ls).map asSetUp <:+ v.uart.line := by
  obtain ⟨hpast, hrank⟩ := Driver.rank_run h hs hm hnone
  obtain ⟨rs, v, hrun, hrs, ⟨-, qs, hfrom, hqs⟩, hzero, hlen⟩ :=
    Run.descend (Onward u₀ ls) (fun l : Label => l.message = none) Driver.rank
      (fun _ hv => hv.rank_lt) ⟨hpast, ms, h.append hm, hnone⟩
  have hprint := Driver.printing_run hfrom
  refine ⟨hrank, rs, v, hrun, hrs, hlen.trans hrank, ?_, ?_⟩
  · exact hprint.part_none (Nat.add_eq_zero_iff.mp hzero).1
  · rw [← log_eq hqs]
    exact Driver.rank_zero (Driver.sending_run hfrom) hprint hzero

theorem printed_arrives_greeting :
    ∃ v : Driver, v.control.part = none ∧ (ascii "Kernel").map asSetUp <:+ v.uart.line := by
  obtain ⟨-, rs, v, -, -, -, hpart, hline⟩ :=
    printed_arrives ((setup_run asReset le_rfl).snoc (.print (ascii "Kernel") rfl)) rfl .nil nofun
  exact ⟨v, hpart, hline⟩

end MiniOS.Serial
