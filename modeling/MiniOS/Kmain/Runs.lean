import MiniOS.Kmain.Start
import MiniOS.Memory.Handoff

/-!
# `kmain` with interrupts

The set-up runs without them, and they make no difference to the rest.
-/

open MiniOS.Lib MiniOS.Vga MiniOS.Chat MiniOS.Memory

namespace MiniOS.Kmain

section

variable {fuel : Nat} {p : Placement} {ebx : Word} {k₀ k : Kernel}

/-! ## An interrupt makes no difference -/

/-- What an interrupt may change. -/
def beside (d : Interrupt.Device) (k : Kernel) : Kernel := k.setDevice d

theorem onChat_spares (c : Chat.Action Unit) : (onChat c).Spares beside := by
  unfold onChat
  apply Prog.Spares.on
  · exact fun _ _ => rfl
  · exact fun _ _ _ => rfl

theorem testPmm_spares : testPmm.Spares beside := by
  have halloc : allocPage.Spares beside := by
    unfold allocPage
    intro k
    have hpmm : ∀ d, (beside d k).pmm = k.pmm := fun _ => rfl
    have hset : ∀ d pmm, (beside d k).setPmm pmm = beside d (k.setPmm pmm) := fun _ _ => rfl
    refine ⟨fun d => ⟨?_, ?_⟩, trivial⟩
    · dsimp only
      rw [hpmm, hset]
    · dsimp only
      rw [hpmm]
  unfold testPmm
  refine (onChat_spares _).bind fun _ => halloc.bind fun test_page => ?_
  split <;> exact onChat_spares _

theorem startModule_spares (mem : Mem) (mbinfo : MultibootInfo) : (startModule mem mbinfo).Spares beside := by
  unfold startModule
  split
  · refine (onChat_spares _).bind fun _ => ?_
    split
    · exact (onChat_spares _).bind fun _ => (onChat_spares _).bind fun _ => trivial
    · exact onChat_spares _
  · exact onChat_spares _

theorem start_spares : (start fuel p ebx).Spares beside := by
  have hpmm : (initializePmm fuel p ebx).Spares beside := by
    apply Prog.spares_update
    intro d k
    rw [Option.map_map]
    rfl
  unfold start
  exact (onChat_spares _).bind fun _ => (onChat_spares _).bind fun _ => hpmm.bind fun _ =>
    testPmm_spares.bind fun _ => (startModule_spares _ _).bind fun _ => onChat_spares _

theorem say_tables (prints : List Print) : (say prints).Each SameTables := by
  unfold say onChat
  exact (say_each prints).on fun _ _ _ => ⟨rfl, rfl, rfl, rfl⟩

theorem setInterrupts_tables (interrupts : Bool) : (onChat (setInterrupts interrupts)).Each SameTables :=
  fun _ => ⟨⟨rfl, rfl, rfl, rfl⟩, trivial⟩

theorem setPmm_tables (k : Kernel) (pmm : Pmm) : SameTables k (k.setPmm pmm) := ⟨rfl, rfl, rfl, rfl⟩

theorem start_tables : (start fuel p ebx).Each SameTables := by
  have hpmm : (initializePmm fuel p ebx).Each SameTables := by
    apply Prog.each_update fun _ => ⟨rfl, rfl, rfl, rfl⟩
    intro k t h
    obtain ⟨pmm, -, rfl⟩ := Option.map_eq_some_iff.mp h
    exact setPmm_tables k pmm
  have halloc : allocPage.Each SameTables := by
    unfold allocPage
    exact fun k => ⟨setPmm_tables k _, trivial⟩
  have htest : testPmm.Each SameTables := by
    unfold testPmm
    refine (say_tables _).bind fun _ => halloc.bind fun test_page => ?_
    split <;> exact say_tables _
  have hmodule : (startModule p.mem (MultibootInfo.read p.mem ebx)).Each SameTables := by
    unfold startModule
    split
    · refine (say_tables _).bind fun _ => ?_
      split
      · exact (say_tables _).bind fun _ => (setInterrupts_tables _).bind fun _ => trivial
      · exact say_tables _
    · exact say_tables _
  unfold start
  exact (setInterrupts_tables _).bind fun _ => (say_tables _).bind fun _ => hpmm.bind fun _ =>
    htest.bind fun _ => hmodule.bind fun _ => say_tables _

/-! ## Any run -/

def KeepsFlag (k t : Kernel) : Prop := t.chat.interrupts = k.chat.interrupts

variable (fuel p ebx k₀) in
/-- Before `sti`. -/
structure Early (s : Running) : Prop where
  masked : s.kernel.chat.interrupts = false
  rest : ∃ e : Action Unit, s.rest = (e >>= fun _ => start fuel p ebx) ∧
    e.Each KeepsFlag ∧
    e.ends (fun _ k => Prepared p k₀ k) (fun _ _ => False) s.kernel

variable (fuel p ebx k₀) in
/-- From `sti` on. -/
structure Late (s : Running) : Prop where
  ready : Ready p k₀ s.kernel
  spares : s.rest.Spares beside
  tables : s.rest.Each SameTables
  ends : s.rest.ends (fun _ t => ∃ pmm, Chatting fuel p ebx k₀ t pmm)
    (fun e t => Stays fuel p ebx k₀ t e) s.kernel

variable {s t : Running} {l : Label}

theorem Prepared.late (henough : Enough fuel p ebx k₀) (h : Prepared p k₀ k) :
    Late fuel p ebx k₀ ⟨k, start fuel p ebx⟩ :=
  ⟨h.toReady, start_spares, start_tables, start_ends henough h⟩

theorem Late.request (h : Late fuel p ebx k₀ s) {d : Interrupt.Device}
    (hready : Ready p k₀ (s.kernel.setDevice d)) :
    Late fuel p ebx k₀ { s with kernel := s.kernel.setDevice d } := by
  refine ⟨hready, h.spares, h.tables, h.spares.ends ?_ ?_ d h.ends⟩
  · rintro - d k ⟨pmm, hnone, hset, hreturns, hbitmap, hsaid⟩
    exact ⟨pmm, hnone, hset, hreturns, hbitmap, hsaid⟩
  · intro e d k he
    cases e with
    | endless => exact he
    | start_program a =>
      obtain ⟨pmm, hone, hstart, hset, hreturns, hbitmap, hsaid⟩ := he
      exact ⟨pmm, hone, hstart, hset, hreturns, hbitmap, hsaid⟩
    | lost => exact he
    | chat e => exact he

theorem Late.step (h : Late fuel p ebx k₀ s) (hs : Step p s l t) :
    Late fuel p ebx k₀ t ∧ statements [l] + t.rest.steps t.kernel = s.rest.steps s.kernel := by
  obtain ⟨kernel, rest⟩ := s
  cases hs with
  | statement hrest =>
    obtain rfl : rest = _ := hrest
    refine ⟨⟨h.ready.keep (h.tables kernel).1, (h.spares kernel).2, (h.tables kernel).2, h.ends⟩, ?_⟩
    exact Nat.add_comm _ _
  | request hset hd hn hleads hrun =>
    exact ⟨h.request (h.ready.handled hd hrun), (Nat.zero_add _).trans (h.spares.steps _)⟩
  | lost hset hd hlost =>
    obtain ⟨n, hn, hleads⟩ := h.ready.found hd
    exact absurd hleads (hlost n hn)

/-- The set-up is over with its last statement. -/
theorem Early.cases (henough : Enough fuel p ebx k₀) (h : Early fuel p ebx k₀ s) :
    (∃ f rest, s.rest = .stmt f rest) ∨ Late fuel p ebx k₀ s := by
  obtain ⟨kernel, rest⟩ := s
  obtain ⟨-, e, hrest, -, hends⟩ := h
  cases e with
  | ret a =>
    obtain rfl : rest = start fuel p ebx := hrest
    exact Or.inr (Prepared.late henough hends)
  | fault e => exact hends.elim
  | stmt f next => exact Or.inl ⟨f, _, hrest⟩

theorem Early.step (henough : Enough fuel p ebx k₀) (h : Early fuel p ebx k₀ s) (hs : Step p s l t) :
    (Early fuel p ebx k₀ t ∨ Late fuel p ebx k₀ t) ∧
      statements [l] + t.rest.steps t.kernel = s.rest.steps s.kernel := by
  obtain ⟨kernel, rest⟩ := s
  obtain ⟨hmasked, e, hrest, hflag, hends⟩ := h
  cases e with
  | ret a =>
    obtain rfl : rest = start fuel p ebx := hrest
    obtain ⟨hlate, hcount⟩ := (Prepared.late henough hends).step hs
    exact ⟨Or.inr hlate, hcount⟩
  | fault e => exact hends.elim
  | stmt f next =>
    obtain rfl : rest = .stmt f fun k => (next k).bind fun _ => start fuel p ebx := hrest
    cases hs with
    | statement hstmt =>
      obtain ⟨rfl, rfl⟩ := Prog.stmt.inj hstmt
      obtain ⟨hkeep, hnext⟩ := hflag kernel
      exact ⟨Or.inl ⟨hkeep.trans hmasked, next kernel, rfl, hnext, hends⟩, Nat.add_comm _ _⟩
    | request hset =>
      rw [hmasked] at hset
      cases hset
    | lost hset =>
      rw [hmasked] at hset
      cases hset

/-- A line that no mask is in the way of gets through. -/
theorem Ready.takes (h : Ready p k₀ s.kernel) (hset : s.kernel.chat.interrupts = true)
    {r : Interrupt.Request} (hr : r.Unmasked k₀.device.master.imr k₀.device.slave.imr) (codes : List Byte) :
    ∃ d, Step p s (.request r codes) { s with kernel := s.kernel.setDevice d } := by
  have hdeliver := Interrupt.deliver_unmasked h.remapped h.idle hr
  have hirq := r.irq_lt
  obtain ⟨⟨⟩, d, hrun, -⟩ := Interrupt.handler_serves k₀.device.master.imr k₀.device.slave.imr r
    { s.kernel.device with codes := s.kernel.device.codes ++ codes }
  exact ⟨d, .request (n := ⟨32 + r.irq, by omega⟩) hset hdeliver (Interrupt.vector_toNat r).symm
    (h.leads ⟨32 + r.irq, by omega⟩) hrun⟩

end

/-! ## A boot without modules -/

end MiniOS.Kmain
