import MiniOS.Chat.Schedule
import MiniOS.Memory.Init
import MiniOS.Segment.Gdt
import MiniOS.Interrupt.Acknowledge
import MiniOS.Serial.Driver

/-!
# `kmain`

The set-up in the order of the source, with interrupts between any two statements at which
the flag is set, up to the call of `chat_init` or the jump into a module.
-/

open MiniOS.Lib MiniOS.Vga MiniOS.Chat MiniOS.Memory

namespace MiniOS.Kmain

/-- `chat` has the two outputs and the flag. The queue of the keyboard is in `device`. -/
structure Kernel where
  line : Serial.Config
  gdt : Segment.Gdt
  idt : Interrupt.Idt
  device : Interrupt.Device
  pmm_bitmap : Bitmap
  chat : State

/-- What GRUB left in memory, and the addresses that the linker knows. -/
structure Placement where
  mem : Mem
  KERNEL_START : Word
  KERNEL_END : Word
  gdt_entries : Word
  interrupt_handler : Fin 48 → Word

/-- Where `kmain` stays: in a loop of `pmm_initialize` without end, in the module, or at an interrupt that
does not find its label. -/
inductive Halt
  | endless
  | start_program (program_addr : Word)
  | lost
  | chat (e : Fault)

abbrev Action := Prog Halt Kernel

def Kernel.setChat (k : Kernel) (chat : State) : Kernel := { k with chat := chat }

def Kernel.setDevice (k : Kernel) (device : Interrupt.Device) : Kernel := { k with device := device }

def onChat (p : Chat.Action Unit) : Action Unit := p.on Kernel.chat Kernel.setChat .chat

def onDevice (p : Interrupt.Action Unit) : Action Unit := p.on Kernel.device Kernel.setDevice Empty.elim

def say (prints : List Print) : Action Unit := onChat (Chat.say prints)

def Kernel.pmm (k : Kernel) : Pmm := ⟨k.pmm_bitmap, k.chat.serial⟩

def Kernel.setPmm (k : Kernel) (pmm : Pmm) : Kernel :=
  { k with pmm_bitmap := pmm.pmm_bitmap, chat := { k.chat with serial := pmm.serial } }

/-! ## The texts -/

def lineReady : List Print :=
  [.serial (lit "Porta Serial (COM1) Inicializada com sucesso!\n"),
    .serial (lit "Kernel do Little OS Book - Teste do Capitulo 7\n")]

def gdtLoaded : List Print := [.serial (lit "GDT (Global Descriptor Table) carregada com sucesso!\n")]

def picRemapped : List Print := [.serial (lit "PIC remapeado (IRQs 0-15 -> INT 32-47)\n")]

def idtLoaded : List Print := [.serial (lit "IDT (Interrupt Descriptor Table) carregada com sucesso!\n")]

def hello : List Print :=
  [.console (lit "Hello World!\n\n") CONSOLE_LIGHT_MAGENTA,
    .console (lit "Finalmente deu certo!\n") CONSOLE_MAGENTA,
    .console (lit "Usando o framebuffer vga...!\n") CONSOLE_LIGHT_MAGENTA,
    .console (lit "GDT carregada com sucesso!\n") CONSOLE_MAGENTA,
    .console (lit "IDT e PIC inicializados!\n") CONSOLE_LIGHT_MAGENTA,
    .console (lit "Teclado habilitado - digite algo!\n") CONSOLE_MAGENTA,
    .serial (lit "Mensagens enviadas para o framebuffer.\n")]

def interruptsEnabled : List Print := [.serial (lit "Interrupcoes habilitadas (sti).\n")]

def testing : List Print := [.serial (lit "Teste PMM: Alocando primeira pagina 4KB... ")]

def success : List Print := [.serial (lit "SUCESSO!\n")]

def failure : List Print := [.serial (lit "FALHA!\n")]

def moduleFound : List Print := [.serial (lit "Modulo externo encontrado via GRUB!\n")]

def launching : List Print :=
  [.console (lit "\nModulo carregado! Disparando programa...\n") CONSOLE_LIGHT_GREEN,
    .serial (lit "Saltando para o programa em modo kernel...\n")]

def tooMany : List Print :=
  [.serial (lit "AVISO: mods_count != 1, abortando salto.\n"),
    .console (lit "\nAVISO: numero de modulos inesperado!\n") CONSOLE_LIGHT_RED]

def noModule : List Print := [.serial (lit "Nenhum modulo multiboot encontrado.\n")]

def chatMode : List Print :=
  [.serial (lit "Modo chat do kernel (vga=teclado, serial=COM1).\n"),
    .console (lit "\n--- Chat no kernel ---\n") CONSOLE_LIGHT_CYAN,
    .console (lit "[vga] teclado na janela VGA  |  [serial] terminal host\n") CONSOLE_LIGHT_GREY,
    .console (lit "Enter envia a linha. Backspace apaga.\n") CONSOLE_LIGHT_GREY,
    .console (lit "Comandos: /transferir /deadlock\n") CONSOLE_LIGHT_BROWN]

/-! ## The code -/

/-- Sealed: `rfl` is not to look for a free page. -/
@[irreducible] def allocPage : Action Word :=
  .stmt (fun k => k.setPmm (pmm_alloc_page k.pmm).2) fun k => .ret (pmm_alloc_page k.pmm).1

/-- Up to `sti`. -/
def prepare (p : Placement) : Action Unit := do
  Prog.modify fun k => { k with line := Serial.setUp k.line Serial.serial_initialize.length }
  say lineReady
  Prog.modify fun k => { k with gdt := Segment.gdt_initialize p.gdt_entries k.gdt }
  say gdtLoaded
  onDevice Interrupt.pic_remap
  say picRemapped
  Prog.modify fun k => { k with idt := Interrupt.idt_initialize p.interrupt_handler k.idt }
  say idtLoaded
  onChat (Prog.modify fun s => { s with console := console_clear s.console })
  say hello

def initializePmm (fuel : Nat) (p : Placement) (ebx : Word) : Action Unit :=
  Prog.update .endless fun k =>
    Option.map k.setPmm <| pmm_initialize fuel k.pmm p.mem ebx p.KERNEL_START p.KERNEL_END

def testPmm : Action Unit := do
  say testing
  let test_page ← allocPage
  if test_page > 0#32 then say success else say failure

/-- What GRUB left is still there: nobody has written to it, nor to the page allocated. -/
def startModule (mem : Mem) (mbinfo : MultibootInfo) : Action Unit := do
  if mbinfo.flags &&& MULTIBOOT_FLAG_MODS ≠ 0#32 then
    say moduleFound
    if mbinfo.mods_count = 1#32 then
      say launching
      onChat (setInterrupts false)
      -- the program is no code of the kernel, and is not expected back
      Prog.fault (.start_program ((mbinfo.module mem 0).mod_start + Memory.KERNEL_VIRTUAL_BASE))
    else say tooMany
  else say noModule

/-- From `sti` on. -/
def start (fuel : Nat) (p : Placement) (ebx : Word) : Action Unit := do
  onChat (setInterrupts true)
  say interruptsEnabled
  initializePmm fuel p ebx
  testPmm
  startModule p.mem (MultibootInfo.read p.mem ebx)
  say chatMode

/-- Up to the call of `chat_init`. -/
def kmain (fuel : Nat) (p : Placement) (ebx : Word) : Action Unit := do
  prepare p
  start fuel p ebx

/-! ## With interrupts -/

structure Running where
  kernel : Kernel
  rest : Action Unit

inductive Label
  | statement
  | request (r : Interrupt.Request) (codes : List Byte)

/-- Through both tables the processor gets from `vector` to `label`. -/
structure Leads (k : Kernel) (vector : Byte) (label : Word) : Prop where
  gate : Segment.Gate.decode (Segment.gateBytes (k.idt.get vector.toFin)) =
    some ⟨label, 0x08#16, 0#8, 0x8E#8⟩
  code : Segment.Descriptor.decode (k.gdt.gdt_entries.get 1).bytes =
    some ⟨0#32, 0xFFFFF#20, 0x9A#8, 0xC#4⟩

/-- A gate masks interrupts, so a handler runs to its end. Without a way to its label it is not found. -/
inductive Step (p : Placement) (s : Running) : Label → Running → Prop
  | statement {f : Kernel → Kernel} {rest : Kernel → Action Unit} : s.rest = .stmt f rest →
      Step p s .statement ⟨f s.kernel, rest s.kernel⟩
  | request {r : Interrupt.Request} {codes : List Byte} {vector : Byte} {n : Fin 48}
      {d d' : Interrupt.Device} :
      s.kernel.chat.interrupts = true → s.kernel.device.deliver r = some (vector, d) →
      n.val = vector.toNat → Leads s.kernel vector (p.interrupt_handler n) →
      (Interrupt.interrupt_handler (vector.setWidth 32)).exec { d with codes := d.codes ++ codes } =
        .ok ((), d') →
      Step p s (.request r codes) { s with kernel := s.kernel.setDevice d' }
  | lost {r : Interrupt.Request} {codes : List Byte} {vector : Byte} {d : Interrupt.Device} :
      s.kernel.chat.interrupts = true → s.kernel.device.deliver r = some (vector, d) →
      (∀ n : Fin 48, n.val = vector.toNat → ¬Leads s.kernel vector (p.interrupt_handler n)) →
      Step p s (.request r codes) { s with rest := .fault .lost }

def statements (ls : List Label) : Nat := ls.countP fun l => match l with
  | .statement => true
  | .request _ _ => false

end MiniOS.Kmain
