import MiniOS.Boot.Handover
import MiniOS.Memory.Reserved

/-!
# The kernel's address space stays

From `kmain` on the tables lie in memory that the allocator never hands out. So the
mapping of the kernel survives whatever is written to the pages that are held.
-/

open MiniOS.Lib

namespace MiniOS.Boot

open MiniOS.Memory (Client Call Pmm Mem frameOf freeFrames)

/-- The memory of the image, from `KERNEL_START` to `KERNEL_END`. -/
def Image.Holds (img : Image) (pa : Word) : Prop :=
  0x100000 ≤ pa.toNat ∧ pa.toNat < img.KERNEL_END - KERNEL_VIRTUAL_BASE

def Image.InTable (img : Image) (pa : Word) : Prop :=
  img.boot_page_directory - KERNEL_VIRTUAL_BASE ≤ pa.toNat ∧
    pa.toNat < img.boot_page_directory - KERNEL_VIRTUAL_BASE + 4096

structure Space where
  mmu : Mmu
  client : Client

inductive Space.Label
  | move
  | call (c : Call)
  | page (la : Word) (b : Byte)
  | own (la : Word) (b : Byte)
  | screen (la : Word) (b : Byte)

def Mmu.write (u : Mmu) (pa : Word) (b : Byte) : Mmu := { u with mem := Function.update u.mem pa b }

/-- Calls of the allocator, writes to the pages that are held, to the kernel's own variables and to the
text buffer of the screen. No variable is in the page directory. -/
inductive Space.Step (img : Image) : Space → Space.Label → Space → Prop
  | move {s : Space} {u : Mmu} : s.mmu.Move u → Step img s .move { s with mmu := u }
  | call {s : Space} {c : Call} {client : Client} :
      Client.Step s.client c client → Step img s (.call c) { s with client := client }
  | page {s : Space} {la pa : Word} {b : Byte} :
      s.mmu.Maps la pa → frameOf pa ∈ frameOf '' s.client.live →
      Step img s (.page la b) { s with mmu := Mmu.write s.mmu pa b }
  | own {s : Space} {la pa : Word} {b : Byte} :
      s.mmu.Maps la pa → img.Holds pa → ¬img.InTable pa →
      Step img s (.own la b) { s with mmu := Mmu.write s.mmu pa b }
  | screen {s : Space} {la pa : Word} {b : Byte} :
      s.mmu.Maps la pa → 0xB8000 ≤ pa.toNat → pa.toNat < 0xB8000 + 4000 →
      Step img s (.screen la b) { s with mmu := Mmu.write s.mmu pa b }

variable {img : Image}

/-! ## Writes that miss the tables -/

theorem Image.inTable_entry (hfit : img.Fits) (i : BitVec 10) {j : Nat} (hj : j < 4) :
    img.InTable (entryAt img.frame i + word j) := by
  obtain ⟨-, -, hdirectory, hstack⟩ := hfit.low
  have hi := i.isLt
  unfold KERNEL_STACK_SIZE at hstack
  unfold InTable
  rw [img.entryAt_frame hfit, ← word_add]
  unfold KERNEL_VIRTUAL_BASE
  rw [toNat_word (by omega)]
  omega

theorem Image.inTable_holds (hfit : img.Fits) {pa : Word} (h : img.InTable pa) : img.Holds pa := by
  have hsections := img.sections_le
  obtain ⟨-, hdirectory, -⟩ := img.directory_bounds
  obtain ⟨-, -, hdirectory', -⟩ := hfit.low
  unfold InTable KERNEL_VIRTUAL_BASE at h
  unfold Holds KERNEL_VIRTUAL_BASE
  omega

theorem Tables.write {low : Bool} {u : Mmu} (hfit : img.Fits) (h : Tables img.frame low u) {pa : Word}
    (hpa : ¬img.InTable pa) (b : Byte) : Tables img.frame low (Mmu.write u pa b) := by
  refine ⟨h.on, h.pse, h.pae, h.directory, fun i => ?_⟩
  have hsame : peek (Mmu.write u pa b).mem (entryAt img.frame i) = peek u.mem (entryAt img.frame i) := by
    refine peek_congr fun j hj => Function.update_of_ne ?_ _ _
    rintro rfl
    exact hpa (img.inTable_entry hfit i hj)
  rw [hsame]
  exact h.entry i

/-- With the same entries a kept translation stays good. -/
theorem Tables.current {D : BitVec 20} {low : Bool} {u v : Mmu} (hu : Tables D low u) (hv : Tables D low v)
    (htlb : v.tlb = u.tlb) {old : Set Translation} (h : u.Current old) : v.Current old := by
  intro t ht
  rw [htlb] at ht
  rw [hv.walk, ← hu.walk]
  exact h t ht

/-! ## What the allocator hands out -/

theorem Sizes.kernelRange (hfit : img.Fits) :
    Memory.KernelRange (word Sizes.KERNEL_START) (word img.KERNEL_END) := by
  have hsections := img.sections_le
  have htext : 0xC0100000 ≤ img.sText.stop := Nat.le_add_right 0xC0100000 _
  unfold Image.Fits at hfit
  unfold Sizes.KERNEL_START
  refine ⟨?_, ?_, ?_⟩
  · rw [toNat_word (by omega)]
    omega
  · rw [toNat_word (by omega)]
  · rw [toNat_word (by omega), toNat_word (by omega)]
    omega

theorem image_not_free (hfit : img.Fits) {fuel : Nat} {pmm pmm' : Pmm} {mem : Mem} {p : Word}
    (h : Memory.pmm_initialize fuel pmm mem p (word Sizes.KERNEL_START) (word img.KERNEL_END) = some pmm')
    {pa : Word} (hpa : img.Holds pa) : frameOf pa ∉ freeFrames pmm'.pmm_bitmap := by
  obtain ⟨info, hi, -⟩ := Memory.pmm_initialize_carries h
  rw [Memory.pmm_initialize_spec hi h]
  have hrange := Sizes.kernelRange hfit
  have hks := Memory.physical_toNat hrange.base
  have hke := Memory.physical_toNat (hrange.base.trans hrange.le)
  have hfit' : img.KERNEL_END ≤ 0xC0400000 := hfit
  unfold Image.Holds KERNEL_VIRTUAL_BASE at hpa
  refine fun hu => hu.2 (Or.inl (Or.inl (Memory.touches_rangeFrames ?_ ⟨pa.toNat, ?_, ?_, rfl⟩)))
  · rw [hks, toNat_word (by decide)]
    rfl
  · rw [hks, toNat_word (by decide)]
    exact hpa.1
  · rw [hke, toNat_word (by omega)]
    exact hpa.2

/-- No page that is free or held has a byte of the image. -/
def Apart (img : Image) (c : Client) : Prop :=
  ∃ (p : Pool Memory.Frame) (all : Set Memory.Frame),
    c.Refines p ∧ p.Splits all ∧ ∀ pa, img.Holds pa → frameOf pa ∉ all

theorem Apart.step {c d : Client} {call : Call} (h : Apart img c) (hs : Client.Step c call d) :
    Apart img d := by
  obtain ⟨p, all, href, hsplits, hall⟩ := h
  obtain ⟨q, hq, href'⟩ := hs.refines href
  exact ⟨q, all, href', hq.splits hsplits, hall⟩

theorem Apart.held {c : Client} (h : Apart img c) {pa : Word} (hpa : frameOf pa ∈ frameOf '' c.live) :
    ¬img.Holds pa := by
  obtain ⟨p, all, href, hsplits, hall⟩ := h
  rw [href.live] at hpa
  exact fun hholds => hall pa hholds (hsplits.live_subset hpa)

/-! ## Every run from `kmain` on -/

structure Space.Inv (img : Image) (s : Space) : Prop where
  tables : Tables img.frame false s.mmu
  current : s.mmu.Current ∅
  apart : Apart img s.client

theorem Space.Inv.write {s : Space} (h : s.Inv img) (hfit : img.Fits) {pa : Word} (hpa : ¬img.InTable pa)
    (b : Byte) : Space.Inv img { s with mmu := Mmu.write s.mmu pa b } :=
  have htables := h.tables.write hfit hpa b
  ⟨htables, h.tables.current htables rfl h.current, h.apart⟩

theorem Space.Inv.step {s t : Space} {l : Space.Label} (h : s.Inv img) (hfit : img.Fits)
    (hs : Space.Step img s l t) : t.Inv img := by
  cases hs with
  | move hm => exact ⟨h.tables.move hm, hm.current h.current, h.apart⟩
  | call hc => exact ⟨h.tables, h.current, h.apart.step hc⟩
  | page _ hpa => exact h.write hfit (fun htable => h.apart.held hpa (img.inTable_holds hfit htable)) _
  | own _ _ hpa => exact h.write hfit hpa _
  | screen _ _ hpa =>
    refine h.write hfit (fun htable => ?_) _
    have hholds := (img.inTable_holds hfit htable).1
    omega

/-- **The kernel's mapping stays.** From the entry of `kmain` on, in every order of what the processor
does with its translations, of calls of the allocator, and of writes to held pages, to the kernel's own
variables and to the screen, exactly the kernel's 4 MiB are mapped, to the same memory, and no page
that is held has a byte of the image. -/
theorem address_space_stays (hfit : img.Fits) {s₀ s : Machine} (hs : img.Entered s₀) {ls : List Label}
    (hboot : Run (Step img) s₀ ls s) (hkmain : ls.count .exec = 20) {fuel : Nat} {pmm pmm' : Pmm}
    {mem : Mem} {p : Word}
    (hpmm : Memory.pmm_initialize fuel pmm mem p (word Sizes.KERNEL_START) (word img.KERNEL_END) =
      some pmm')
    {ls' : List Space.Label} {t : Space} (h : Run (Space.Step img) ⟨s.mmu, pmm', ∅⟩ ls' t) :
    (∀ la pa, t.mmu.Maps la pa ↔
      0xC0000000 ≤ la.toNat ∧ la.toNat < 0xC0400000 ∧ pa = la - word KERNEL_VIRTUAL_BASE) ∧
    ∀ a ∈ t.client.live, ∀ pa, frameOf pa = frameOf a → ¬img.Holds pa := by
  obtain ⟨-, hinv⟩ := run_inv hfit hs hboot
  rw [hkmain] at hinv
  have hstart : Space.Inv img ⟨s.mmu, pmm', ∅⟩ := by
    refine ⟨hinv.kernel.1, hinv.kernel.2, ⟨_, freeFrames pmm'.pmm_bitmap,
      Client.start_refines (Memory.pmm_initialize_zero hpmm), ?_,
      fun pa hpa => image_not_free hfit hpmm hpa⟩⟩
    exact ⟨Set.union_empty _, Set.disjoint_empty _⟩
  have ht : t.Inv img := h.state_inv (Space.Inv img) hstart fun _ _ _ hi hstep => hi.step hfit hstep
  refine ⟨ht.tables.kernel_maps ht.current, fun a ha pa hpa => ht.apart.held ?_⟩
  rw [hpa]
  exact Set.mem_image_of_mem _ ha

theorem address_space_stays_small : ∃ ls s fuel pmm' ls' t,
    Run (Step smallImage) grubEntry ls s ∧
    Memory.pmm_initialize fuel Memory.onePage (Memory.bootImage Memory.smallBoot) 0xC0001000#32
      (word Sizes.KERNEL_START) (word smallImage.KERNEL_END) = some pmm' ∧
    Run (Space.Step smallImage) ⟨s.mmu, pmm', ∅⟩ ls' t ∧ ls' ≠ [] ∧
    t.mmu.Maps 0xC0101000#32 0x101000#32 := by
  obtain ⟨s, hboot⟩ := run_exists smallImage_fits grubEntry_entered (n := 20) le_rfl
  have hends : Memory.LoopsEnd Memory.smallBoot (word Sizes.KERNEL_START) (word smallImage.KERNEL_END) :=
    ⟨Memory.smallBoot_ends, (Sizes.kernelRange smallImage_fits).rangeEnds,
      fun m hm => (Memory.smallBoot_placed m hm).rangeEnds⟩
  obtain ⟨fuel, pmm', hpmm⟩ :=
    Memory.pmm_initialize_returns Memory.smallBoot_carries hends Memory.onePage
  have hrun : Run (Space.Step smallImage) ⟨s.mmu, pmm', ∅⟩ [.call (.alloc _)] _ :=
    Run.nil.snoc (.call (.alloc Prod.mk.eta.symm))
  have hmaps := (address_space_stays smallImage_fits grubEntry_entered hboot (List.count_replicate_self ..)
    hpmm hrun).1
  exact ⟨_, s, fuel, pmm', _, _, hboot, hpmm, hrun, List.cons_ne_nil _ _, (hmaps _ _).mpr (by decide)⟩

end MiniOS.Boot
