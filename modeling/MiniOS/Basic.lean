import MiniOS.Lib.Loop

/-! # Bytes, words and C strings -/

namespace MiniOS

abbrev Byte := BitVec 8

abbrev Word := BitVec 32

/-- The bytes of a literal. C adds the NUL; every reader here stops at the end of the list. -/
def ascii (s : String) : List Byte := s.toList.map fun c => BitVec.ofNat 8 c.toNat

/-- What a loop `while (*p)` reads from an array: the bytes before the first NUL. -/
def cString (bytes : List Byte) : List Byte := bytes.takeWhile (· ≠ 0#8)

theorem cString_of_not_mem {bytes : List Byte} (h : 0#8 ∉ bytes) : cString bytes = bytes := by
  unfold cString
  rw [List.takeWhile_eq_self_iff]
  intro b hb
  rw [decide_eq_true_eq]
  rintro rfl
  exact h hb

/-- The bytes that COM1 has sent, oldest first. The transmitter is always ready in the end. -/
abbrev Serial := List Byte

def serial_print (sent : Serial) (mensagem : List Byte) : Serial := sent ++ cString mensagem

end MiniOS
