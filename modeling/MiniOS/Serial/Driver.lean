import MiniOS.Serial.Uart
import MiniOS.Lib.Run

/-!
# The driver of the serial port

`serial.c`, one access of a port at a time, between any steps of the chip.
-/

open MiniOS.Lib

namespace MiniOS.Serial

/-- The writes of `serial_initialize`. -/
def serial_initialize : List (Port × Byte) :=
  [(UART_INT_EN, 0x00#8),
    (UART_LINE_CTRL, 0x80#8),
    (UART_DATA, 0x01#8),
    (UART_INT_EN, 0x00#8),
    (UART_LINE_CTRL, 0x03#8),
    (UART_FIFO_CTRL, 0xC7#8),
    (UART_MODEM_CTRL, 0x03#8)]

/-- Where the kernel is in `serial.c`. -/
inductive Control
  | setup (current : Nat)
  | idle
  | serial_print (mensagem : List Byte) (current : Nat)
  | is_transmit_buffer_ready (mensagem : List Byte) (current : Nat)
  | serial_write_char (mensagem : List Byte) (current : Nat)
  | serial_read_byte
  deriving DecidableEq

/-- `printed` and `got` only record: the bytes given to the chip, and those taken from it. -/
structure Driver where
  uart : Uart
  control : Control
  printed : List Byte
  got : List Byte

inductive Label
  | setup
  | print (mensagem : List Byte)
  | test
  | poll
  | write
  | rx_ready
  | read
  | chip

/-- The byte of a C string. The literal ends with a NUL. -/
def charAt (mensagem : List Byte) (current : Nat) : Byte := mensagem.getD current 0#8

/-- `serial_read_byte` is called after `serial_rx_ready` said so, as in `chat_poll`. -/
inductive Step (s : Driver) : Label → Driver → Prop
  | setup {k : Nat} {port : Port} {data : Byte} :
      s.control = .setup k → serial_initialize[k]? = some (port, data) →
      Step s .setup { s with
        uart := s.uart.out port data
        control := if k + 1 < serial_initialize.length then .setup (k + 1) else .idle }
  | print (mensagem : List Byte) : s.control = .idle →
      Step s (.print mensagem) { s with control := .serial_print mensagem 0 }
  | test {mensagem : List Byte} {current : Nat} : s.control = .serial_print mensagem current →
      Step s .test { s with
        control :=
          if charAt mensagem current ≠ 0#8 then .is_transmit_buffer_ready mensagem current else .idle }
  | poll {mensagem : List Byte} {current : Nat} (junk : Byte) :
      s.control = .is_transmit_buffer_ready mensagem current →
      Step s .poll { s with
        uart := (s.uart.inp junk UART_LINE_STAT).2
        control :=
          if (s.uart.inp junk UART_LINE_STAT).1 &&& 0x20#8 = 0#8 then
            .is_transmit_buffer_ready mensagem current
          else .serial_write_char mensagem current }
  | write {mensagem : List Byte} {current : Nat} :
      s.control = .serial_write_char mensagem current →
      Step s .write { s with
        uart := s.uart.out UART_DATA (charAt mensagem current)
        control := .serial_print mensagem (current + 1)
        printed := s.printed ++ [charAt mensagem current] }
  | rx_ready (junk : Byte) : s.control = .idle →
      Step s .rx_ready { s with
        uart := (s.uart.inp junk UART_LINE_STAT).2
        control :=
          if (s.uart.inp junk UART_LINE_STAT).1 &&& 0x01#8 ≠ 0#8 then .serial_read_byte else .idle }
  | read (junk : Byte) : s.control = .serial_read_byte →
      Step s .read { s with
        uart := (s.uart.inp junk UART_DATA).2
        control := .idle
        got := s.got ++ [(s.uart.inp junk UART_DATA).1] }
  | chip {u : Uart} : s.uart.Move u → Step s .chip { s with uart := u }

/-! ## The registers -/

/-- How many of the writes of `serial_initialize` are done. -/
def Control.done : Control → Nat
  | .setup k => k
  | _ => serial_initialize.length

def Control.past : Control → Bool
  | .setup _ => false
  | _ => true

theorem Control.past_done {c : Control} (h : c.past = true) : c.done = serial_initialize.length := by
  cases c with
  | setup k => cases h
  | _ => rfl

theorem Step.past {s t : Driver} {l : Label} (hs : Step s l t) (h : s.control.past = true) :
    t.control.past = true := by
  cases hs with
  | setup hk =>
    rw [hk] at h
    cases h
  | print => rfl
  | test =>
    dsimp only
    split <;> rfl
  | poll =>
    dsimp only
    split <;> rfl
  | write => rfl
  | rx_ready =>
    dsimp only
    split <;> rfl
  | read => rfl
  | chip => exact h

def setUp (c : Config) (k : Nat) : Config :=
  (List.take k serial_initialize).foldl (fun c w => c.out w.1 w.2) c

theorem setUp_succ {c : Config} {k : Nat} {port : Port} {data : Byte}
    (h : serial_initialize[k]? = some (port, data)) :
    setUp c (k + 1) = (setUp c k).out port data := by
  unfold setUp
  rw [List.take_add_one, h, Option.toList_some, List.foldl_append]
  rfl

/-- 115200 baud, eight bits, no parity, one stop bit. An `ier` behind the divisor latch is not reached. -/
theorem setUp_all (c : Config) :
    setUp c serial_initialize.length =
      ⟨if c.dlab then c.ier else 0#8, 0x03#8, 0x03#8, 0x01#8, 0x00#8, true⟩ := by
  obtain ⟨ier, lcr, mcr, low, high, fifos⟩ := c
  simp [setUp, serial_initialize, Config.out, Config.dlab]
  split <;> rfl

/-- From the write to the FIFO control on. -/
theorem setUp_cleared {c : Config} {k : Nat} (hk : 6 ≤ k) (hk' : k ≤ 7) :
    (setUp c k).fifos = true ∧ (setUp c k).dlab = false := by
  have hlcr : ∀ d : Config, (d.out UART_MODEM_CTRL 0x03#8).lcr = d.lcr := fun _ => rfl
  have hfinal : (setUp c serial_initialize.length).lcr = 0x03#8 := by rw [setUp_all]
  have hlast : (setUp c 6).lcr = 0x03#8 := by
    rw [← hlcr, ← setUp_succ rfl]
    exact hfinal
  unfold Config.dlab
  obtain rfl | rfl : k = 6 ∨ k = 7 := by omega
  · exact ⟨rfl, congrArg (·.getLsbD 7) hlast⟩
  · exact ⟨rfl, congrArg (·.getLsbD 7) hfinal⟩

theorem Uart.Move.config {u v : Uart} (h : u.Move v) : v.config = u.config := by
  cases h <;> rfl

theorem inp_config (u : Uart) (junk : Byte) (port : Port) : (u.inp junk port).2.config = u.config := by
  unfold Uart.inp
  split
  · rfl
  split <;> rfl

theorem out_data_config (u : Uart) (data : Byte) (h : u.config.dlab = false) :
    (u.out UART_DATA data).config = u.config := by
  show u.config.out UART_DATA data = u.config
  unfold Config.out
  rw [if_pos rfl, h]
  rfl

structure Driver.SetUp (c : Config) (s : Driver) : Prop where
  config : s.uart.config = setUp c s.control.done
  setup_lt : ∀ k, s.control = .setup k → k < serial_initialize.length
  early : s.control.past = false → s.printed = [] ∧ s.got = []

/-- Once it is set up, the driver leaves the registers alone. -/
theorem Driver.SetUp.keep {c : Config} {s t : Driver} (h : s.SetUp c) (hs : s.control.past = true)
    (ht : t.control.past = true) (hconfig : t.uart.config = s.uart.config) : t.SetUp c := by
  refine ⟨?_, fun k hk => ?_, fun hearly => absurd (ht.symm.trans hearly) (by decide)⟩
  · rw [hconfig, h.config, Control.past_done hs, Control.past_done ht]
  · rw [hk] at ht
    cases ht

theorem Driver.SetUp.step {c : Config} {s t : Driver} {l : Label} (h : s.SetUp c) (hs : Step s l t) :
    t.SetUp c := by
  cases hs with
  | @setup k port data hc hw =>
    have hk := h.setup_lt k hc
    have hconfig : s.uart.config.out port data = setUp c (k + 1) := by
      rw [h.config, hc, setUp_succ hw]
      rfl
    refine ⟨?_, fun j hj => ?_, fun _ => h.early (by rw [hc]; rfl)⟩
    · refine hconfig.trans (congrArg _ ?_)
      show k + 1 = Control.done (if _ then _ else _)
      split
      · rfl
      · show k + 1 = serial_initialize.length
        omega
    · have hj' : (if k + 1 < serial_initialize.length then Control.setup (k + 1) else .idle) = .setup j := hj
      split at hj'
      · obtain rfl := Control.setup.inj hj'
        assumption
      · cases hj'
  | print mensagem hc => exact h.keep (by rw [hc]; rfl) rfl rfl
  | test hc => exact h.keep (by rw [hc]; rfl) (by dsimp only; split <;> rfl) rfl
  | poll junk hc => exact h.keep (by rw [hc]; rfl) (by dsimp only; split <;> rfl) (inp_config _ _ _)
  | write hc =>
    refine h.keep (by rw [hc]; rfl) rfl (out_data_config _ _ ?_)
    rw [h.config, hc]
    exact (setUp_cleared (by decide) le_rfl).2
  | rx_ready junk hc => exact h.keep (by rw [hc]; rfl) (by dsimp only; split <;> rfl) (inp_config _ _ _)
  | read junk hc => exact h.keep (by rw [hc]; rfl) rfl (inp_config _ _ _)
  | chip hm => exact ⟨hm.config.trans h.config, h.setup_lt, h.early⟩

theorem Driver.SetUp.final {c : Config} {s : Driver} (h : s.SetUp c) (hs : s.control.past = true) :
    s.uart.config = ⟨if c.dlab then c.ier else 0#8, 0x03#8, 0x03#8, 0x01#8, 0x00#8, true⟩ := by
  rw [h.config, Control.past_done hs, setUp_all]

theorem Driver.SetUp.loopback {c : Config} {s : Driver} (h : s.SetUp c) (hs : s.control.past = true) :
    s.uart.config.loopback = false := by
  rw [h.final hs]
  show (0x03#8 : Byte).getLsbD 4 = false
  decide

theorem Driver.SetUp.cleared {c : Config} {s : Driver} (h : s.SetUp c) (hs : 6 ≤ s.control.done) :
    s.uart.config.fifos = true ∧ s.uart.config.dlab = false := by
  rw [h.config]
  refine setUp_cleared hs ?_
  cases hk : s.control with
  | setup k => exact (h.setup_lt k hk).le
  | _ => exact le_rfl

theorem Driver.setUp_run {u₀ : Uart} {ls : List Label} {s : Driver}
    (h : Run Step ⟨u₀, .setup 0, [], []⟩ ls s) : s.SetUp u₀.config := by
  refine h.state_inv (·.SetUp u₀.config) ⟨rfl, fun k hk => ?_, fun _ => ⟨rfl, rfl⟩⟩
    fun _ _ _ hc hs => hc.step hs
  obtain rfl := Control.setup.inj hk
  decide

def asReset : Uart where
  config := ⟨0#8, 0#8, 0#8, 0#8, 0#8, false⟩
  tx := []
  shift := none
  rx := []
  overrun := false
  line := []
  heard := []

/-- Nothing stands in the way of the writes. -/
theorem setup_run (u₀ : Uart) {k : Nat} (hk : k ≤ serial_initialize.length) :
    Run Step ⟨u₀, .setup 0, [], []⟩ (List.replicate k .setup)
      ⟨(List.take k serial_initialize).foldl (fun u w => u.out w.1 w.2) u₀,
        if k < serial_initialize.length then .setup k else .idle, [], []⟩ := by
  induction k with
  | zero => exact .nil
  | succ k ih =>
    have hget := List.getElem?_eq_getElem hk
    have hstep := (ih (Nat.le_of_lt hk)).snoc (.setup (if_pos hk) hget)
    rw [List.replicate_succ', List.take_add_one, hget, Option.toList_some, List.foldl_append]
    exact hstep

end MiniOS.Serial
