import MiniOS.Kmain.Code
import MiniOS.Memory.Reserved

/-!
# What `kmain` sets up, and what it prints

Without interrupts. Up to `sti` there are none, and after it they make no difference.
-/

open MiniOS.Lib MiniOS.Vga MiniOS.Chat MiniOS.Memory

namespace MiniOS.Kmain

/-! ## The tables -/

/-- The line is set up, the chips are, and every vector of the table leads to its label. -/
structure Ready (p : Placement) (k₀ k : Kernel) : Prop where
  line : k.line = Serial.setUp k₀.line Serial.serial_initialize.length
  leads : ∀ n : Fin 48, Leads k (BitVec.ofNat 8 n) (p.interrupt_handler n)
  remapped : k.device.Remapped k₀.device.master.imr k₀.device.slave.imr
  idle : k.device.Idle

structure SameTables (k t : Kernel) : Prop where
  line : t.line = k.line
  gdt : t.gdt = k.gdt
  idt : t.idt = k.idt
  device : t.device = k.device

theorem Ready.keep {p : Placement} {k₀ k t : Kernel} (h : Ready p k₀ k) (hs : SameTables k t) :
    Ready p k₀ t := by
  refine ⟨hs.line.trans h.line, fun n => ⟨?_, ?_⟩, ?_, ?_⟩
  · rw [hs.idt]
    exact (h.leads n).gate
  · rw [hs.gdt]
    exact (h.leads n).code
  · rw [hs.device]
    exact h.remapped
  · rw [hs.device]
    exact h.idle

/-- An interrupt finds its label. -/
theorem Ready.found {p : Placement} {k₀ k : Kernel} (h : Ready p k₀ k) {r : Interrupt.Request}
    {vector : Byte} {d : Interrupt.Device} (hd : k.device.deliver r = some (vector, d)) :
    ∃ n : Fin 48, n.val = vector.toNat ∧ Leads k vector (p.interrupt_handler n) := by
  obtain ⟨-, rfl, -⟩ := Interrupt.deliver_some h.remapped h.idle hd
  have hirq := r.irq_lt
  have hvector := Interrupt.vector_toNat r
  exact ⟨⟨32 + r.irq, by omega⟩, hvector.symm, h.leads ⟨32 + r.irq, by omega⟩⟩

/-- Its handler leaves the chips as they were. -/
theorem Ready.handled {p : Placement} {k₀ k : Kernel} (h : Ready p k₀ k) {r : Interrupt.Request}
    {codes : List Byte} {vector : Byte} {d d' : Interrupt.Device}
    (hd : k.device.deliver r = some (vector, d))
    (hrun : (Interrupt.interrupt_handler (vector.setWidth 32)).exec { d with codes := d.codes ++ codes } =
      .ok ((), d')) : Ready p k₀ (k.setDevice d') := by
  obtain ⟨-, rfl, rfl⟩ := Interrupt.deliver_some h.remapped h.idle hd
  have hspec := Interrupt.handler_serves k₀.device.master.imr k₀.device.slave.imr r
    { k.device with codes := k.device.codes ++ codes }
  obtain ⟨hremapped, hidle⟩ := (Prog.wp_of_exec hrun).mp hspec
  exact ⟨h.line, fun n => ⟨(h.leads n).gate, (h.leads n).code⟩, hremapped, hidle⟩

/-! ## What goes out -/

/-- `log` went out, on a cleared screen. -/
def Said (k₀ : Kernel) (log : List Print) (k : Kernel) : Prop :=
  Shown { k₀.chat with console := console_clear k₀.chat.console } k.chat (log.map Print.out)

def SameFlag (s t : State) : Prop := t.interrupts = s.interrupts

theorem say_sameFlag (prints : List Print) : (Chat.say prints).Each SameFlag := by
  induction prints with
  | nil => trivial
  | cons print prints ih =>
    cases print with
    | serial mensagem =>
      have hfirst : (serialPrint mensagem).Each SameFlag := Prog.each_modify fun _ => rfl
      exact hfirst.bind fun _ => ih
    | console text fg =>
      have hfirst : (consoleWrite text fg).Each SameFlag := Prog.each_modify fun _ => rfl
      exact hfirst.bind fun _ => ih

theorem ends_onChat {c : Chat.Action Unit} {Q : Unit → Kernel → Prop} {E : Halt → Kernel → Prop} {k : Kernel}
    (h : c.wp (fun _ s => Q () (k.setChat s)) k.chat) : (onChat c).ends Q E k := by
  unfold onChat
  apply Prog.ends_on
  · exact fun _ _ => rfl
  · exact fun _ _ _ => rfl
  · exact fun _ => rfl
  · exact Prog.ends_of_wp h

theorem ends_say {k : Kernel} {prints : List Print} {Q : Unit → Kernel → Prop} {E : Halt → Kernel → Prop}
    (h : ∀ s, Shown k.chat s (prints.map Print.out) → s.interrupts = k.chat.interrupts →
      Q () (k.setChat s)) : (say prints).ends Q E k := by
  have hshown : (Chat.say prints).wp (fun _ s => Shown k.chat s (prints.map Print.out)) k.chat :=
    say_shown fun _ _ h => h
  apply ends_onChat
  have hflag := Prog.Each.wp (R := SameFlag) (fun _ => rfl) (fun _ _ _ h h' => h'.trans h)
    (say_sameFlag prints) hshown
  apply Prog.wp_mono hflag
  rintro - s ⟨hs, hflag⟩
  exact h s hs hflag

theorem Said.say {k₀ k : Kernel} {log prints : List Print} {s : State} (h : Said k₀ log k)
    (hs : Shown k.chat s (prints.map Print.out)) : Said k₀ (log ++ prints) (k.setChat s) := by
  unfold Said
  rw [List.map_append]
  exact h.trans hs

def welcome : List Print := lineReady ++ gdtLoaded ++ picRemapped ++ idtLoaded ++ hello

structure Prepared (p : Placement) (k₀ k : Kernel) : Prop extends Ready p k₀ k where
  masked : k.chat.interrupts = k₀.chat.interrupts
  pmm_bitmap : k.pmm_bitmap = k₀.pmm_bitmap
  said : Said k₀ welcome k

/-- GRUB loaded one module. -/
def OneModule (mbinfo : MultibootInfo) : Prop :=
  mbinfo.flags &&& MULTIBOOT_FLAG_MODS ≠ 0#32 ∧ mbinfo.mods_count = 1#32

def pagePrints (test_page : Word) : List Print :=
  if test_page = 0#32 then
    .serial (ascii "PMM PANIC: Out of physical memory!\n") :: failure
  else success

/-- All that is printed up to the test of the flags. -/
def bootPrints (mbinfo : MultibootInfo) (test_page : Word) : List Print :=
  welcome ++ interruptsEnabled ++ (pmmTexts mbinfo).map Print.serial ++ testing ++ pagePrints test_page

/-- Without a jump. -/
def modulePrints (mbinfo : MultibootInfo) : List Print :=
  if mbinfo.flags &&& MULTIBOOT_FLAG_MODS ≠ 0#32 then moduleFound ++ tooMany else noModule

/-- All that is printed up to `chat_init`. -/
def introPrints (mbinfo : MultibootInfo) (test_page : Word) : List Print :=
  bootPrints mbinfo test_page ++ modulePrints mbinfo ++ chatMode

section

variable {fuel : Nat} {p : Placement} {ebx : Word} {k₀ k : Kernel}

variable (fuel p ebx k₀) in
/-- The allocator, set up with nothing printed before. -/
def initialized : Option Pmm :=
  pmm_initialize fuel ⟨k₀.pmm_bitmap, []⟩ p.mem ebx p.KERNEL_START p.KERNEL_END

variable (fuel p ebx k₀) in
/-- If `pmm_initialize` returns with any fuel, it does with this. -/
def Enough : Prop := ∀ n, (initialized n p ebx k₀).isSome → (initialized fuel p ebx k₀).isSome

variable (fuel p ebx k₀ k) in
/-- The allocator has its bitmap, and one page of it is taken. -/
structure Booted (pmm : Pmm) (prints : List Print) : Prop where
  returns : initialized fuel p ebx k₀ = some pmm
  pmm_bitmap : k.pmm_bitmap = (pmm_alloc_page pmm).2.pmm_bitmap
  said : Said k₀ prints k

variable (fuel p ebx k₀ k) in
structure Chatting (pmm : Pmm) : Prop where
  none : ¬OneModule (MultibootInfo.read p.mem ebx)
  interrupts : k.chat.interrupts = true
  booted : Booted fuel p ebx k₀ k pmm (introPrints (MultibootInfo.read p.mem ebx) (pmm_alloc_page pmm).1)

variable (fuel p ebx k₀ k) in
structure Launched (program_addr : Word) (pmm : Pmm) : Prop where
  one : OneModule (MultibootInfo.read p.mem ebx)
  start : program_addr =
    ((MultibootInfo.read p.mem ebx).module p.mem 0).mod_start + Memory.KERNEL_VIRTUAL_BASE
  interrupts : k.chat.interrupts = false
  booted : Booted fuel p ebx k₀ k pmm
    (bootPrints (MultibootInfo.read p.mem ebx) (pmm_alloc_page pmm).1 ++ (moduleFound ++ launching))

variable (fuel p ebx k₀ k) in
/-- `kmain` stays in `pmm_initialize` only if a loop there never ends, and it is never lost. -/
def Stays : Halt → Prop
  | .endless => ∀ info, Carries p.mem ebx info → ¬LoopsEnd info p.KERNEL_START p.KERNEL_END
  | .start_program program_addr => ∃ pmm, Launched fuel p ebx k₀ k program_addr pmm
  | _ => False

/-- With loops that end, and not exactly one module, it does not stay anywhere. -/
theorem Stays.false {e : Halt} (h : Stays fuel p ebx k₀ k e) {info : BootInfo} (hi : Carries p.mem ebx info)
    (hends : LoopsEnd info p.KERNEL_START p.KERNEL_END)
    (hnone : ¬OneModule (MultibootInfo.read p.mem ebx)) : False := by
  cases e with
  | endless => exact h info hi hends
  | start_program a =>
    obtain ⟨_, hlaunched⟩ := h
    exact hnone hlaunched.one
  | lost => exact h
  | chat e => exact h

theorem initialized_none (henough : Enough fuel p ebx k₀) (h : initialized fuel p ebx k₀ = none) :
    Stays fuel p ebx k₀ k .endless := by
  intro info hi hends
  obtain ⟨n, pmm, hreturns⟩ := pmm_initialize_returns hi hends ⟨k₀.pmm_bitmap, []⟩
  have hsome := henough n (Option.isSome_of_eq_some hreturns)
  rw [h] at hsome
  cases hsome

theorem Said.prints {log : List Print} (h : Said k₀ log k) (texts : List (List Byte)) (pmm_bitmap : Bitmap) :
    Said k₀ (log ++ texts.map Print.serial)
      (k.setPmm ⟨pmm_bitmap, texts.foldl serial_print k.chat.serial⟩) := by
  have hshown : ∀ s : State, Shown s { s with serial := texts.foldl serial_print s.serial }
      ((texts.map Print.serial).map Print.out) := by
    induction texts with
    | nil => exact Shown.refl
    | cons m texts ih =>
      exact fun s => (shown_serial s m).trans (ih { s with serial := serial_print s.serial m })
  unfold Said
  rw [List.map_append]
  exact h.trans (hshown k.chat)

theorem ends_allocPage {Q : Word → Kernel → Prop} {E : Halt → Kernel → Prop} :
    allocPage.ends Q E k ↔ Q (pmm_alloc_page k.pmm).1 (k.setPmm (pmm_alloc_page k.pmm).2) := by
  unfold allocPage
  rfl

theorem initializePmm_ends {log : List Print} {Q : Kernel → Prop} {E : Halt → Kernel → Prop}
    (h : Said k₀ log k) (hbitmap : k.pmm_bitmap = k₀.pmm_bitmap)
    (hQ : ∀ pmm t, initialized fuel p ebx k₀ = some pmm →
      t.chat.interrupts = k.chat.interrupts → t.pmm_bitmap = pmm.pmm_bitmap →
      Said k₀ (log ++ (pmmTexts (MultibootInfo.read p.mem ebx)).map Print.serial) t → Q t)
    (hE : initialized fuel p ebx k₀ = none → E .endless k) :
    (initializePmm fuel p ebx).ends (fun _ => Q) E k := by
  have hcall := pmm_initialize_prints fuel k.pmm p.mem ebx p.KERNEL_START p.KERNEL_END
  have hpmm : k.pmm.pmm_bitmap = k₀.pmm_bitmap := hbitmap
  rw [hpmm] at hcall
  unfold initializePmm
  refine Prog.ends_update (fun t ht => ?_) fun hnone => ?_
  · rw [hcall] at ht
    obtain ⟨_, hprinted, rfl⟩ := Option.map_eq_some_iff.mp ht
    obtain ⟨pmm, hreturns, rfl⟩ := Option.map_eq_some_iff.mp hprinted
    exact hQ pmm _ hreturns rfl rfl (h.prints _ _)
  · rw [hcall] at hnone
    exact hE (Option.map_eq_none_iff.mp (Option.map_eq_none_iff.mp hnone))

theorem testPmm_ends {pmm : Pmm} {log : List Print} {Q : Kernel → Prop} {E : Halt → Kernel → Prop}
    (hbitmap : k.pmm_bitmap = pmm.pmm_bitmap) (h0 : 0 ∉ freeFrames pmm.pmm_bitmap) (h : Said k₀ log k)
    (hQ : ∀ t, t.chat.interrupts = k.chat.interrupts → t.pmm_bitmap = (pmm_alloc_page pmm).2.pmm_bitmap →
      Said k₀ (log ++ testing ++ pagePrints (pmm_alloc_page pmm).1) t → Q t) :
    testPmm.ends (fun _ => Q) E k := by
  unfold testPmm
  rw [Prog.ends_bind]
  refine ends_say fun s₁ h₁ hflag₁ => ?_
  have hsaid := h.say h₁
  have halloc : (k.setChat s₁).pmm = ⟨pmm.pmm_bitmap, s₁.serial⟩ := congrArg (Pmm.mk · s₁.serial) hbitmap
  rw [Prog.ends_bind, ends_allocPage, halloc, pmm_alloc_page_prints h0]
  generalize pmm_alloc_page pmm = result at hQ ⊢
  by_cases hzero : result.1 = 0#32
  · have hpanic := hsaid.prints [ascii "PMM PANIC: Out of physical memory!\n"] result.2.pmm_bitmap
    rw [if_pos hzero, if_neg (by rw [hzero]; exact BitVec.lt_irrefl _)]
    refine ends_say fun s₂ h₂ hflag₂ => hQ _ (hflag₂.trans hflag₁) rfl ?_
    rw [pagePrints, if_pos hzero, ← List.singleton_append, ← List.append_assoc]
    exact hpanic.say h₂
  · rw [if_neg hzero, if_pos ((BitVec.pos_iff_ne_zero _).mpr hzero)]
    refine ends_say fun s₂ h₂ hflag₂ => hQ _ (hflag₂.trans hflag₁) rfl ?_
    rw [pagePrints, if_neg hzero]
    exact hsaid.say h₂

theorem startModule_ends {mem : Mem} {mbinfo : MultibootInfo} {log : List Print} {Q : Kernel → Prop}
    {E : Halt → Kernel → Prop} (h : Said k₀ log k)
    (hQ : ∀ t, ¬OneModule mbinfo → t.chat.interrupts = k.chat.interrupts → t.pmm_bitmap = k.pmm_bitmap →
      Said k₀ (log ++ modulePrints mbinfo) t → Q t)
    (hE : ∀ t, OneModule mbinfo → t.chat.interrupts = false → t.pmm_bitmap = k.pmm_bitmap →
      Said k₀ (log ++ (moduleFound ++ launching)) t →
      E (.start_program ((mbinfo.module mem 0).mod_start + Memory.KERNEL_VIRTUAL_BASE)) t) :
    (startModule mem mbinfo).ends (fun _ => Q) E k := by
  unfold startModule
  split
  swap
  · refine ends_say fun s₁ h₁ hflag₁ => ?_
    rw [modulePrints, if_neg ‹_›] at hQ
    exact hQ _ (fun hone => absurd hone.1 ‹_›) hflag₁ rfl (h.say h₁)
  rename_i hmods
  rw [modulePrints, if_pos hmods] at hQ
  rw [Prog.ends_bind]
  refine ends_say fun s₁ h₁ hflag₁ => ?_
  split
  · rename_i hcount
    rw [Prog.ends_bind]
    refine ends_say fun s₂ h₂ hflag₂ => ?_
    rw [Prog.ends_bind]
    refine ends_onChat ((Prog.wp_modify _).mpr ?_)
    refine hE _ ⟨hmods, hcount⟩ rfl rfl ?_
    rw [← List.append_assoc]
    have hsaid : Said k₀ (log ++ moduleFound ++ launching) ((k.setChat s₁).setChat s₂) :=
      (h.say h₁).say h₂
    exact ⟨hsaid.serial, hsaid.console⟩
  · rename_i hcount
    refine ends_say fun s₂ h₂ hflag₂ => ?_
    refine hQ _ (fun hone => hcount hone.2) (hflag₂.trans hflag₁) rfl ?_
    rw [← List.append_assoc]
    exact (h.say h₁).say h₂

theorem start_ends (henough : Enough fuel p ebx k₀) (h : Prepared p k₀ k) :
    (start fuel p ebx).ends (fun _ t => ∃ pmm, Chatting fuel p ebx k₀ t pmm)
      (fun e t => Stays fuel p ebx k₀ t e) k := by
  unfold start
  rw [Prog.ends_bind]
  refine ends_onChat ((Prog.wp_modify _).mpr ?_)
  rw [Prog.ends_bind]
  refine ends_say fun s₁ h₁ hflag₁ => ?_
  have hopen : Said k₀ welcome (k.setChat { k.chat with interrupts := true }) :=
    ⟨h.said.serial, h.said.console⟩
  have hsaid := hopen.say h₁
  rw [Prog.ends_bind]
  refine initializePmm_ends hsaid h.pmm_bitmap (fun pmm k₁ hreturns hk₁ hbitmap₁ hsaid₁ => ?_)
    (initialized_none henough)
  rw [Prog.ends_bind]
  refine testPmm_ends hbitmap₁ (pmm_initialize_zero hreturns) hsaid₁ fun k₂ hk₂ hbitmap₂ hsaid₂ => ?_
  rw [Prog.ends_bind]
  refine startModule_ends hsaid₂ (fun k₃ hnone hk₃ hbitmap₃ hsaid₃ => ?_)
    fun k₃ hone hk₃ hbitmap₃ hsaid₃ => ?_
  · refine ends_say fun s₄ h₄ hflag₄ => ⟨pmm, hnone, ?_, hreturns, hbitmap₃.trans hbitmap₂, ?_⟩
    · calc s₄.interrupts
        _ = k₃.chat.interrupts := hflag₄
        _ = k₂.chat.interrupts := hk₃
        _ = k₁.chat.interrupts := hk₂
        _ = s₁.interrupts := hk₁
        _ = true := hflag₁
    · exact hsaid₃.say h₄
  · exact ⟨pmm, hone, rfl, hk₃, hreturns, hbitmap₃.trans hbitmap₂, hsaid₃⟩

end

end MiniOS.Kmain
