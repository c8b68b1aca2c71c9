import MiniOS.Chat.State

/-!
# The file transfers

`deadlock.c` on one thread. Nobody else runs between two of its statements but the
interrupt handler, which has no lock, so a lock found taken stays taken. The delay
loops do nothing and are left out.
-/

open MiniOS.Lib MiniOS.Vga

namespace MiniOS.Chat

/-- The result and the new value of `*ptr`. -/
def atomic_xchg (ptr val : Word) : Word × Word := (ptr, val)

/-- The first exchange. If it finds the lock taken, so does every later one. -/
def spin_lock (u : User) : Action Unit :=
  .stmt (fun s => s.setFile u { s.file u with locked := (atomic_xchg (s.file u).locked 1#32).2 })
    fun s => if (atomic_xchg (s.file u).locked 1#32).1 ≠ 0#32 then .fault .spin else .ret ()

def setLocked (u : User) (locked : Word) : Action Unit :=
  Prog.modify fun s => s.setFile u { s.file u with locked := locked }

def spin_unlock (u : User) : Action Unit := setLocked u 0#32

def copyToFile (u : User) (src : List Byte) : Action Unit :=
  Prog.update .bounds fun s =>
    (str_copy (s.file u).data src 64).map fun data => s.setFile u { s.file u with data := data }

def deadlock_init : Action Unit := do
  setLocked .vga 0#32
  copyToFile .vga (lit "foto_ferias.png")
  setLocked .serial 0#32
  copyToFile .serial (lit "trabalho.pdf")

def deadlock_demo_unsafe : Action Unit := do
  setLocked .vga 0#32
  setLocked .serial 0#32
  say [.serial (lit "  DEMO: DEADLOCK\r\n"),
    .console (lit "\nDEMO: DEADLOCK\n") CONSOLE_LIGHT_RED,
    .serial (lit "[VGA]    Travando lock_vga...\r\n"),
    .console (lit "[VGA] Travando lock_vga...\n") CONSOLE_LIGHT_CYAN]
  spin_lock .vga
  say [.serial (lit "[VGA]    lock_vga travado!\r\n"),
    .console (lit "[VGA] lock_vga travado!\n") CONSOLE_LIGHT_GREEN,
    .serial (lit "[Serial] Travando lock_serial...\r\n"),
    .console (lit "[Serial] Travando lock_serial...\n") CONSOLE_LIGHT_CYAN]
  setLocked .serial 1#32
  say [.serial (lit "[Serial] lock_serial travado!\r\n"),
    .console (lit "[Serial] lock_serial travado!\n") CONSOLE_LIGHT_GREEN,
    .serial (lit "\r\n[VGA]    Tentando lock_serial...\r\n"),
    .serial (lit "[Serial] Tentando lock_vga...\r\n"),
    .serial (lit "\r\n DEADLOCK: Os dois aguardam na fila infinitamente.\r\n"),
    .serial (lit "Kernel travou. Reset para sair.\r\n\r\n"),
    .console (lit "\n[VGA] Tentando lock_serial...\n") CONSOLE_LIGHT_BROWN,
    .console (lit "[Serial] Tentando lock_vga...\n") CONSOLE_LIGHT_BROWN,
    .console (lit "\nDEADLOCK: Kernel travou.\n") CONSOLE_LIGHT_RED,
    .console (lit "Ctrl+Alt+Del para reiniciar.\n") CONSOLE_LIGHT_RED]
  spin_lock .serial
  -- the text has one letter of two bytes
  say [.serial (ascii "OBS: essa mensagem n" ++ [0xC3#8, 0xA3#8] ++ lit "o aparece!\r\n")]

/-- The three copies. `tmp` is written before it is read, so its first contents do not matter. -/
def swapFiles : Action Unit := do
  let tmp ← Prog.get .bounds
    (str_copy (Vector.replicate 64 0#8) (← Prog.read fun s => (s.file .vga).data.toList) 64)
  copyToFile .vga (← Prog.read fun s => (s.file .serial).data.toList)
  copyToFile .serial tmp.toList

def deadlock_demo_safe : Action Unit := do
  setLocked .vga 0#32
  setLocked .serial 0#32
  say [.serial (lit "  TRANSFERENCIA SEGURA (hierarquia)\r\n"),
    .console (lit "\nTRANSFERENCIA SEGURA\n") CONSOLE_LIGHT_GREEN,
    .console (lit "Regra: lock_vga sempre antes de lock_serial\n") CONSOLE_LIGHT_GREY,
    .serial (lit "[Seguro] Pegando lock_vga (1o)...\r\n"),
    .console (lit "[Seguro] Pegando lock_vga...\n") CONSOLE_LIGHT_CYAN]
  spin_lock .vga
  say [.serial (lit "[Seguro] lock_vga ok!\r\n"),
    .console (lit "[Seguro] lock_vga ok!\n") CONSOLE_LIGHT_GREEN,
    .serial (lit "[Seguro] Pegando lock_serial (2o)...\r\n"),
    .console (lit "[Seguro] Pegando lock_serial...\n") CONSOLE_LIGHT_CYAN]
  spin_lock .serial
  let (vga, serial) ← Prog.read fun s => ((s.file .vga).data.toList, (s.file .serial).data.toList)
  say [.serial (lit "[Seguro] lock_serial ok!\r\n"),
    .console (lit "[Seguro] lock_serial ok!\n") CONSOLE_LIGHT_GREEN,
    .serial (lit "[Seguro] Transferindo dados...\r\n"),
    .console (lit "[Seguro] Trocando: ") CONSOLE_WHITE, .console vga CONSOLE_LIGHT_MAGENTA,
    .console (lit " <-> ") CONSOLE_WHITE, .console serial CONSOLE_LIGHT_MAGENTA,
    .console (lit "\n") CONSOLE_WHITE]
  swapFiles
  spin_unlock .serial
  spin_unlock .vga
  say [.serial (lit "[Seguro] Locks liberados!\r\n\r\n"),
    .console (lit "[Seguro] Sem deadlock.\n") CONSOLE_LIGHT_GREEN]

/-! ## Runs -/

theorem wp_spin_lock {u : User} {s : State} (h : (s.file u).locked = 0#32) {Q : Unit → State → Prop} :
    (spin_lock u).wp Q s ↔ Q () (s.setFile u { s.file u with locked := 1#32 }) := by
  apply Prog.wp_of_exec
  simp [spin_lock, Prog.exec, atomic_xchg, h]

theorem deadlock_demo_unsafe_spec (s : State) : deadlock_demo_unsafe.exec s = .error .spin := by
  unfold deadlock_demo_unsafe
  simp [say, Prog.exec_bind, Except.bind, serialPrint, consoleWrite, setLocked, spin_lock, Prog.exec,
    atomic_xchg, State.file, State.setFile]

theorem copyToFile_spec {u : User} {s : State} {src text : List Byte} (hsrc : IsCString src text)
    {Q : Unit → State → Prop}
    (hQ : ∀ data, IsCString data.toList (text.take 63) → Q () (s.setFile u { s.file u with data := data })) :
    (copyToFile u src).wp Q s := by
  obtain ⟨data, hcopy, hdata⟩ := str_copy_spec hsrc (show 0 < 64 by decide) (le_refl 64) (s.file u).data
  rw [copyToFile, Prog.wp_update (by rw [hcopy]; rfl)]
  exact hQ data hdata

theorem take_of_data {data : Vector Byte 64} {text : List Byte} (h : IsCString data.toList text) :
    text.take 63 = text := by
  obtain ⟨-, rest, hrest⟩ := h
  have hlen := congrArg List.length hrest
  simp only [Vector.length_toList, List.length_append, List.length_cons] at hlen
  exact List.take_of_length_le (by omega)

theorem swapFiles_spec {s : State} {a b : List Byte} (ha : IsCString (s.file .vga).data.toList a)
    (hb : IsCString (s.file .serial).data.toList b) {Q : Unit → State → Prop}
    (hQ : ∀ t, Quiet s t → IsCString (t.file .vga).data.toList b →
      IsCString (t.file .serial).data.toList a → Q () t) :
    swapFiles.wp Q s := by
  obtain ⟨tmp, hcopy, htmp⟩ := str_copy_spec ha (show 0 < 64 by decide) (le_refl 64)
    (Vector.replicate 64 0#8)
  rw [take_of_data ha] at htmp
  unfold swapFiles
  rw [Prog.wp_bind, Prog.wp_read, Prog.wp_bind, Prog.wp_get hcopy, Prog.wp_bind, Prog.wp_read, Prog.wp_bind]
  apply copyToFile_spec hb
  intro vga hvga
  apply copyToFile_spec htmp
  intro serial hserial
  rw [take_of_data hb] at hvga
  rw [take_of_data ha] at hserial
  exact hQ _ ((quiet_setFile s _ _).trans (quiet_setFile _ _ _)) (by simpa using hvga)
    (by simpa using hserial)

/-- `/transferir` comes back with the contents swapped and both locks free. -/
theorem deadlock_demo_safe_spec {s : State} {a b : List Byte}
    (ha : IsCString (s.file .vga).data.toList a) (hb : IsCString (s.file .serial).data.toList b) :
    deadlock_demo_safe.wp (fun _ t => Quiet s t ∧ (∀ u, (t.file u).locked = 0#32) ∧
      IsCString (t.file .vga).data.toList b ∧ IsCString (t.file .serial).data.toList a) s := by
  unfold deadlock_demo_safe
  simp only [setLocked, spin_unlock, Prog.wp_bind, Prog.wp_modify]
  apply say_spec
  intro t ht
  have hvga : (t.file .vga).locked = 0#32 := by rw [ht.file]; simp
  rw [Prog.wp_bind, wp_spin_lock hvga, Prog.wp_bind]
  apply say_spec
  intro u hu
  have hserial : (u.file .serial).locked = 0#32 := by rw [hu.file]; simp [ht.file]
  rw [Prog.wp_bind, wp_spin_lock hserial, Prog.wp_bind, Prog.wp_read, Prog.wp_bind]
  apply say_spec
  intro v hv
  have hquiet : Quiet s v :=
    ((((quiet_setFile s _ _).trans (quiet_setFile _ _ _)).trans ht.toQuiet).trans
      ((quiet_setFile t _ _).trans hu.toQuiet)).trans ((quiet_setFile u _ _).trans hv.toQuiet)
  -- the locks are written, and the data is not
  have hdata : ∀ w, (v.file w).data = (s.file w).data := by
    intro w
    cases w <;> simp [hv.file, hu.file, ht.file]
  rw [Prog.wp_bind]
  apply swapFiles_spec (by rwa [hdata]) (by rwa [hdata])
  intro w hw hwvga hwserial
  rw [Prog.wp_bind, Prog.wp_modify, Prog.wp_bind, Prog.wp_modify]
  apply say_spec
  intro x hx
  refine ⟨?_, ?_, ?_, ?_⟩
  · exact hquiet.trans (hw.trans (((quiet_setFile w _ _).trans (quiet_setFile _ _ _)).trans hx.toQuiet))
  · intro u
    cases u <;> simp [hx.file]
  · simpa [hx.file] using hwvga
  · simpa [hx.file] using hwserial

end MiniOS.Chat
