import MiniOS.Chat.Users

/-!
# The chat on lists

What the chat is for, without arrays, locks and statements: a line and a file for each
user, and blocks that go out.
-/

open MiniOS.Lib MiniOS.Vga

namespace MiniOS.Chat

structure Talk where
  cur : User → List Byte
  file : User → List Byte

def Talk.start : Talk where
  cur := fun _ => []
  file
    | .vga => ascii "foto_ferias.png"
    | .serial => ascii "trabalho.pdf"

def Print.out : Print → Out
  | .serial mensagem => .serial (cString mensagem)
  | .console text fg => .console (cString text) fg

def transferPrints (a b : List Byte) : List Print :=
  [.serial (lit "  TRANSFERENCIA SEGURA (hierarquia)\r\n"),
    .console (lit "\nTRANSFERENCIA SEGURA\n") CONSOLE_LIGHT_GREEN,
    .console (lit "Regra: lock_vga sempre antes de lock_serial\n") CONSOLE_LIGHT_GREY,
    .serial (lit "[Seguro] Pegando lock_vga (1o)...\r\n"),
    .console (lit "[Seguro] Pegando lock_vga...\n") CONSOLE_LIGHT_CYAN,
    .serial (lit "[Seguro] lock_vga ok!\r\n"),
    .console (lit "[Seguro] lock_vga ok!\n") CONSOLE_LIGHT_GREEN,
    .serial (lit "[Seguro] Pegando lock_serial (2o)...\r\n"),
    .console (lit "[Seguro] Pegando lock_serial...\n") CONSOLE_LIGHT_CYAN,
    .serial (lit "[Seguro] lock_serial ok!\r\n"),
    .console (lit "[Seguro] lock_serial ok!\n") CONSOLE_LIGHT_GREEN,
    .serial (lit "[Seguro] Transferindo dados...\r\n"),
    .console (lit "[Seguro] Trocando: ") CONSOLE_WHITE, .console a CONSOLE_LIGHT_MAGENTA,
    .console (lit " <-> ") CONSOLE_WHITE, .console b CONSOLE_LIGHT_MAGENTA,
    .console (lit "\n") CONSOLE_WHITE,
    .serial (lit "[Seguro] Locks liberados!\r\n\r\n"),
    .console (lit "[Seguro] Sem deadlock.\n") CONSOLE_LIGHT_GREEN]

/-- All of the texts but the last, which comes after the second lock. -/
def deadlockPrints : List Print :=
  [.serial (lit "  DEMO: DEADLOCK\r\n"),
    .console (lit "\nDEMO: DEADLOCK\n") CONSOLE_LIGHT_RED,
    .serial (lit "[VGA]    Travando lock_vga...\r\n"),
    .console (lit "[VGA] Travando lock_vga...\n") CONSOLE_LIGHT_CYAN,
    .serial (lit "[VGA]    lock_vga travado!\r\n"),
    .console (lit "[VGA] lock_vga travado!\n") CONSOLE_LIGHT_GREEN,
    .serial (lit "[Serial] Travando lock_serial...\r\n"),
    .console (lit "[Serial] Travando lock_serial...\n") CONSOLE_LIGHT_CYAN,
    .serial (lit "[Serial] lock_serial travado!\r\n"),
    .console (lit "[Serial] lock_serial travado!\n") CONSOLE_LIGHT_GREEN,
    .serial (lit "\r\n[VGA]    Tentando lock_serial...\r\n"),
    .serial (lit "[Serial] Tentando lock_vga...\r\n"),
    .serial (lit "\r\n DEADLOCK: Os dois aguardam na fila infinitamente.\r\n"),
    .serial (lit "Kernel travou. Reset para sair.\r\n\r\n"),
    .console (lit "\n[VGA] Tentando lock_serial...\n") CONSOLE_LIGHT_BROWN,
    .console (lit "[Serial] Tentando lock_vga...\n") CONSOLE_LIGHT_BROWN,
    .console (lit "\nDEADLOCK: Kernel travou.\n") CONSOLE_LIGHT_RED,
    .console (lit "Ctrl+Alt+Del para reiniciar.\n") CONSOLE_LIGHT_RED]

def helpPrints : List Print :=
  [.console (lit "\nComandos:\n") CONSOLE_LIGHT_CYAN,
    .console (lit "  /transferir  - troca de arquivos (com hierarquia)\n") CONSOLE_LIGHT_GREEN,
    .console (lit "  /deadlock  - provoca deadlock (trava tudo!)\n") CONSOLE_LIGHT_RED]

def Talk.swapped (d : Talk) : User → List Byte
  | .vga => d.file .serial
  | .serial => d.file .vga

/-- What a line of `u` brings, and the files after it. After `none` nothing comes. -/
def Talk.answer (d : Talk) (u : User) (m : List Byte) : List Out × Option (User → List Byte) :=
  if m = ascii "/deadlock" then (deadlockPrints.map Print.out, none)
  else if m = ascii "/transferir" then
    ((transferPrints (d.file .vga) (d.file .serial)).map Print.out, some d.swapped)
  else if m = ascii "/help" then (helpPrints.map Print.out, some d.file)
  else if m = [] then ([], some d.file)
  else ([.line u m], some d.file)

def User.lineEcho : User → List Out
  | .vga => []
  | .serial => [.serial (ascii "\r\n")]

/-- The serial port shows no erasing. -/
def User.eraseEcho : User → List Out
  | .vga => [.backspace]
  | .serial => []

def User.echo : User → Byte → Out
  | .vga, c => .console [c] CONSOLE_WHITE
  | .serial, c => .serial [c]

def Talk.setCur (d : Talk) (u : User) (m : List Byte) : Talk := { d with cur := Function.update d.cur u m }

def Talk.key (d : Talk) (u : User) (c : Byte) : List Out × Option Talk :=
  if u.EndsLine c then
    (u.lineEcho ++ (d.answer u (d.cur u)).1,
      (d.answer u (d.cur u)).2.map fun file => ⟨Function.update d.cur u [], file⟩)
  else if u.Erases c then
    (if d.cur u = [] then [] else u.eraseEcho, some (d.setCur u (d.cur u).dropLast))
  else if c < 32#8 then ([], some d)
  else if (d.cur u).length < LINE_MAX then ([u.echo c], some (d.setCur u (d.cur u ++ [c])))
  else ([], some d)

def Talk.run (d : Talk) : List Key → List Out × Option Talk
  | [] => ([], some d)
  | k :: ks => match d.key k.user k.byte with
    | (outs, none) => (outs, none)
    | (outs, some d') => (outs ++ (d'.run ks).1, (d'.run ks).2)

theorem Talk.run_some {d d' : Talk} {k : Key} (h : (d.key k.user k.byte).2 = some d') (ks : List Key) :
    d.run (k :: ks) = ((d.key k.user k.byte).1 ++ (d'.run ks).1, (d'.run ks).2) := by
  rw [Talk.run]
  cases hkey : d.key k.user k.byte with
  | mk outs next =>
    rw [hkey] at h
    subst h
    rfl

theorem Talk.run_none {d : Talk} {k : Key} (h : (d.key k.user k.byte).2 = none) (ks : List Key) :
    d.run (k :: ks) = ((d.key k.user k.byte).1, none) := by
  rw [Talk.run]
  cases hkey : d.key k.user k.byte with
  | mk outs next =>
    rw [hkey] at h
    subst h
    rfl

end MiniOS.Chat
