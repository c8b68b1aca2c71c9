import MiniOS.Basic

/-!
# The serial port

A 16550 at COM1: what its ports do, and what its transmitter and its receiver do by
themselves.
-/

namespace MiniOS.Serial

abbrev Port := BitVec 16

abbrev COM1_BASE : Port := 0x3F8#16

abbrev UART_DATA : Port := COM1_BASE + 0#16

abbrev UART_INT_EN : Port := COM1_BASE + 1#16

abbrev UART_FIFO_CTRL : Port := COM1_BASE + 2#16

abbrev UART_LINE_CTRL : Port := COM1_BASE + 3#16

abbrev UART_MODEM_CTRL : Port := COM1_BASE + 4#16

abbrev UART_LINE_STAT : Port := COM1_BASE + 5#16

/-! ## The chip -/

/-- The registers that say how it works. -/
structure Config where
  ier : Byte
  lcr : Byte
  mcr : Byte
  divisor_low : Byte
  divisor_high : Byte
  fifos : Bool
  deriving DecidableEq

/-- What the other side of the line sees: the speed, the format and the data bits. -/
structure Frame where
  divisor : BitVec 16
  format : BitVec 7
  data : Byte
  deriving DecidableEq

/-- `line` and `heard` only record: what has been sent, and what has arrived while how many bytes were
waiting to be read. -/
structure Uart where
  config : Config
  tx : List Byte
  shift : Option Byte
  rx : List Byte
  overrun : Bool
  line : List Frame
  heard : List (Byte × Nat)

def Config.dlab (c : Config) : Bool := c.lcr.getLsbD 7

def Config.loopback (c : Config) : Bool := c.mcr.getLsbD 4

def Config.depth (c : Config) : Nat := if c.fifos then 16 else 1

/-- Of a byte as many bits are sent as the format has. -/
def Config.frame (c : Config) (b : Byte) : Frame where
  divisor := c.divisor_high ++ c.divisor_low
  format := c.lcr.setWidth 7
  data := b &&& (0x1F#8 <<< (c.lcr &&& 3#8) ||| (1#8 <<< (c.lcr &&& 3#8) - 1#8))

/-- Writes that concern the registers only. The FIFOs are there as long as bit 0 is set. -/
def Config.out (c : Config) (port : Port) (data : Byte) : Config :=
  if port = UART_DATA then if c.dlab then { c with divisor_low := data } else c
  else if port = UART_INT_EN then
    if c.dlab then { c with divisor_high := data } else { c with ier := data &&& 0x0F#8 }
  else if port = UART_FIFO_CTRL then { c with fifos := data.getLsbD 0 }
  else if port = UART_LINE_CTRL then { c with lcr := data }
  else if port = UART_MODEM_CTRL then { c with mcr := data &&& 0x1F#8 }
  else c

namespace Uart

variable (u : Uart)

/-- A byte more. Without room it is lost, or replaces the one that waits. -/
def accept (q : List Byte) (b : Byte) : List Byte :=
  if q.length < u.config.depth then q ++ [b] else if u.config.fifos then q else [b]

/-- A FIFO is cleared by its bit, and both are by switching them on or off. -/
def cleared (data : Byte) (bit : Nat) (q : List Byte) : List Byte :=
  if data.getLsbD 0 ≠ u.config.fifos ∨ data.getLsbD 0 = true ∧ data.getLsbD bit = true then [] else q

def out (port : Port) (data : Byte) : Uart :=
  { u with
    config := u.config.out port data
    tx :=
      if port = UART_DATA ∧ u.config.dlab = false then u.accept u.tx data
      else if port = UART_FIFO_CTRL then u.cleared data 2 u.tx else u.tx
    rx := if port = UART_FIFO_CTRL then u.cleared data 1 u.rx else u.rx }

/-- Data ready, overrun, transmitter ready and all sent are bits 0, 1, 5 and 6. -/
def lineStatus : Byte :=
  (if u.rx = [] then 0#8 else 0x01#8) ||| (if u.overrun then 0x02#8 else 0#8) |||
    (if u.tx = [] then 0x20#8 else 0#8) ||| if u.tx = [] ∧ u.shift = none then 0x40#8 else 0#8

/-- `junk` is what an empty receiver or another port says. -/
def inp (junk : Byte) (port : Port) : Byte × Uart :=
  if port = UART_LINE_STAT then (u.lineStatus, { u with overrun := false })
  else if port = UART_DATA ∧ u.config.dlab = false then (u.rx.headD junk, { u with rx := u.rx.tail })
  else (junk, u)

/-- A byte arrives. Only so many can wait. -/
def hear (b : Byte) : Uart :=
  { u with
    rx := u.accept u.rx b
    overrun := u.overrun || !decide (u.rx.length < u.config.depth)
    heard := u.heard ++ [(b, u.rx.length)] }

/-- What the chip does by itself. In loopback it hears what it sends. -/
inductive Move (u : Uart) : Uart → Prop
  | load {b : Byte} {tx : List Byte} :
      u.tx = b :: tx → u.shift = none → Move u { u with tx := tx, shift := some b }
  | send {b : Byte} : u.shift = some b → u.config.loopback = false →
      Move u { u with shift := none, line := u.line ++ [u.config.frame b] }
  | loop {b : Byte} : u.shift = some b → u.config.loopback = true →
      Move u (hear { u with shift := none } (u.config.frame b).data)
  | hear (b : Byte) : u.config.loopback = false → Move u (u.hear b)

/-- What is on its way, in order. -/
def pending : List Byte := u.shift.toList ++ u.tx

end Uart

end MiniOS.Serial
