import MiniOS.Chat.Fifo

/-!
# The keyboard driver

`keyboard.c`: scan codes of Set 1 to characters. An interrupt drains what the
controller has, and enqueues what it stands for.
-/

open MiniOS.Lib

namespace MiniOS.Chat

/-- The table in rows of eight, as the driver has it: 0 is no character. -/
def scancode_to_ascii : Vector Byte 128 :=
  ⟨([0x00#8, 0x00#8] ++ ascii "123456" ++
    ascii "7890-=" ++ [0x00#8, 0x00#8] ++
    ascii "qwertyui" ++
    ascii "op[]\n" ++ [0x00#8] ++ ascii "as" ++
    ascii "dfghjkl;" ++
    [0x27#8, 0x60#8, 0x00#8] ++ ascii "\\zxcv" ++
    ascii "bnm,./" ++ [0x00#8] ++ ascii "*" ++
    [0x00#8] ++ ascii " " ++ List.replicate 6 0x00#8 ++
    List.replicate 64 0x00#8).toArray, rfl⟩

theorem make_code_lt : ∀ scan_code : Byte, scan_code &&& 0x80#8 = 0#8 → scan_code.toNat < 128 := by
  decide

/-- What a scan code stands for. A released key and a key outside the table stand for nothing. -/
def translate (scan_code : Byte) : Option Byte :=
  if h : scan_code &&& 0x80#8 = 0#8 then
    if scan_code = 0x0E#8 then some 0x08#8
    else
      let ascii := scancode_to_ascii.get ⟨scan_code.toNat, make_code_lt scan_code h⟩
      if ascii ≠ 0#8 then some ascii else none
  else none

def keyboard_handler (codes : List Byte) (q : Queue) : Queue :=
  codes.foldl (fun q scan_code =>
    match translate scan_code with
    | some c => chat_kbd_enqueue q c
    | none => q) q

example : [0x23#8, 0xA3#8, 0x17#8, 0x0E#8, 0x1C#8, 0x3B#8].filterMap translate =
    ascii "hi" ++ [0x08#8, 0x0A#8] := by decide

theorem keyboard_handler_eq (codes : List Byte) (q : Queue) :
    keyboard_handler codes q = (codes.filterMap translate).foldl chat_kbd_enqueue q := by
  unfold keyboard_handler
  induction codes generalizing q with
  | nil => rfl
  | cons code codes ih =>
    rw [List.foldl_cons, ih]
    cases h : translate code with
    | none => simp [h]
    | some c => simp [h]

theorem Popping.handler {q : Queue} {pc : Option Pop} {accepted popped : List Byte} {codes : List Byte}
    (h : Popping q true pc accepted popped)
    (hfit : q.pending.length + (codes.filterMap translate).length ≤ 255) :
    Popping (keyboard_handler codes q) true pc (accepted ++ codes.filterMap translate) popped := by
  rw [keyboard_handler_eq]
  generalize codes.filterMap translate = bytes at *
  induction bytes generalizing q accepted with
  | nil => simpa using h
  | cons c bytes ih =>
    rw [List.length_cons] at hfit
    have hc : q.Accepts c := (accepts_iff q c).mpr (by omega)
    have hnext := h.irq c
    rw [if_pos hc] at hnext
    have hlen : (chat_kbd_enqueue q c).pending.length = q.pending.length + 1 := by
      rw [pending_enqueue hc, List.length_append, List.length_singleton]
    simpa using ih hnext (by omega)

end MiniOS.Chat
