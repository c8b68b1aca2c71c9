import MiniOS.Memory.Bitmap
import MiniOS.Lib.Pool

/-!
# The page allocator

`pmm_alloc_page` and `pmm_free_page`, and every run of a caller that keeps to the
contract of `memory.h`: it frees only pages that it holds.
-/

open MiniOS.Lib

namespace MiniOS.Memory

structure Pmm where
  pmm_bitmap : Bitmap
  serial : Serial

def frameAt (i : Fin PMM_BITMAP_SIZE) (j : Fin 32) : Frame :=
  ⟨i.val * 32 + j.val, by have := i.isLt; have := j.isLt; omega⟩

/-- The loop over the bits of word `i`, up to the bit at which it returns. -/
def scanWord (pmm_bitmap : Bitmap) (i : Fin PMM_BITMAP_SIZE) : Option Frame :=
  (List.finRange 32).findSome? fun j =>
    let bit := frameAt i j
    if bitmap_test pmm_bitmap bit = 0#32 then some bit else none

def scan (pmm_bitmap : Bitmap) : Option Frame :=
  (List.finRange PMM_BITMAP_SIZE).findSome? fun i =>
    if pmm_bitmap[i] ≠ 0xFFFFFFFF#32 then scanWord pmm_bitmap i else none

def pmm_alloc_page (pmm : Pmm) : Word × Pmm :=
  match scan pmm.pmm_bitmap with
  | some bit => (addrOf bit, { pmm with pmm_bitmap := bitmap_set pmm.pmm_bitmap bit })
  | none =>
    (0#32, { pmm with serial := serial_print pmm.serial (ascii "PMM PANIC: Out of physical memory!\n") })

def pmm_free_page (pmm : Pmm) (phys_addr : Word) : Pmm :=
  { pmm with pmm_bitmap := bitmap_clear pmm.pmm_bitmap (frameOf phys_addr) }

/-! ## The scan finds the first free frame -/

theorem findSome?_finRange {n : Nat} {β : Type} (g : Fin n → Option β) (b : β) :
    (List.finRange n).findSome? g = some b ↔ ∃ i, g i = some b ∧ ∀ k < i, g k = none := by
  rw [List.findSome?_eq_some_iff]
  constructor
  · rintro ⟨l₁, i, l₂, hl, hi, hnone⟩
    refine ⟨i, hi, fun k hk => hnone k ?_⟩
    have hsorted := List.pairwise_lt_finRange n
    have hmem : k ∈ List.finRange n := List.mem_finRange k
    rw [hl, List.pairwise_append, List.pairwise_cons] at hsorted
    rw [hl, List.mem_append, List.mem_cons] at hmem
    rcases hmem with hmem | rfl | hmem
    · exact hmem
    · exact absurd hk (lt_irrefl _)
    · exact absurd (hsorted.2.1.1 k hmem) (not_lt.mpr hk.le)
  · rintro ⟨i, hi, hnone⟩
    obtain ⟨l₁, l₂, hl⟩ := List.append_of_mem (List.mem_finRange i)
    have hsorted := List.pairwise_lt_finRange n
    rw [hl, List.pairwise_append] at hsorted
    exact ⟨l₁, i, l₂, hl, hi, fun k hk => hnone k (hsorted.2.2 k hk i (by simp))⟩

theorem frameAt_div_mod (f : Frame) :
    frameAt ⟨f.val / 32, word_lt f⟩ ⟨f.val % 32, Nat.mod_lt _ (by decide)⟩ = f := by
  apply Fin.ext
  simp only [frameAt]
  omega

theorem exists_frameAt (f : Frame) : ∃ i j, f = frameAt i j := ⟨_, _, (frameAt_div_mod f).symm⟩

theorem frameAt_word (bm : Bitmap) (i : Fin PMM_BITMAP_SIZE) (j : Fin 32) :
    bm[wordOf (frameAt i j)] = bm[i] := by
  have h : (frameAt i j).val / 32 = i.val := by have := j.isLt; simp only [frameAt]; omega
  simp only [h, Fin.getElem_fin]

theorem skipped_word (bm : Bitmap) (i : Fin PMM_BITMAP_SIZE) (j : Fin 32)
    (h : bm[i] = 0xFFFFFFFF#32) : bitmap_test bm (frameAt i j) ≠ 0#32 := by
  rw [bitmap_test_ne_zero]
  exact bitAt_of_allOnes bm _ ((frameAt_word bm i j).trans h)

theorem scanWord_some {bm : Bitmap} {i : Fin PMM_BITMAP_SIZE} {f : Frame}
    (h : scanWord bm i = some f) :
    ∃ j, f = frameAt i j ∧ bitmap_test bm f = 0#32 ∧
      ∀ k < j, bitmap_test bm (frameAt i k) ≠ 0#32 := by
  rw [scanWord, findSome?_finRange] at h
  obtain ⟨j, hj, hlt⟩ := h
  simp only [Option.ite_none_right_eq_some, Option.some.injEq] at hj
  obtain ⟨hfree, rfl⟩ := hj
  refine ⟨j, rfl, hfree, fun k hk => ?_⟩
  simpa using hlt k hk

theorem scanWord_none {bm : Bitmap} {i : Fin PMM_BITMAP_SIZE} (h : scanWord bm i = none)
    (j : Fin 32) : bitmap_test bm (frameAt i j) ≠ 0#32 := by
  rw [scanWord, List.findSome?_eq_none_iff] at h
  simpa using h j (List.mem_finRange j)

theorem scan_word_none {bm : Bitmap} {i : Fin PMM_BITMAP_SIZE}
    (h : (if bm[i] ≠ 0xFFFFFFFF#32 then scanWord bm i else none) = none) (j : Fin 32) :
    bitmap_test bm (frameAt i j) ≠ 0#32 := by
  split at h
  · exact scanWord_none h j
  · rename_i hfull
    exact skipped_word bm i j (not_not.mp hfull)

theorem scan_none {bm : Bitmap} (h : scan bm = none) : freeFrames bm = ∅ := by
  rw [scan, List.findSome?_eq_none_iff] at h
  apply Set.eq_empty_of_forall_notMem
  intro f hf
  obtain ⟨i, j, rfl⟩ := exists_frameAt f
  exact scan_word_none (h i (List.mem_finRange i)) j hf

theorem scan_some {bm : Bitmap} {f : Frame} (h : scan bm = some f) :
    f ∈ freeFrames bm ∧ ∀ g < f, g ∉ freeFrames bm := by
  rw [scan, findSome?_finRange] at h
  obtain ⟨i, hi, hlt⟩ := h
  simp only [Option.ite_none_right_eq_some] at hi
  obtain ⟨j, rfl, hfree, hbelow⟩ := scanWord_some hi.2
  refine ⟨hfree, fun g hg => ?_⟩
  obtain ⟨i', j', rfl⟩ := exists_frameAt g
  have hval : i'.val * 32 + j'.val < i.val * 32 + j.val := hg
  have := j.isLt
  have := j'.isLt
  -- an earlier word, or an earlier bit of the same word
  rcases Nat.lt_or_eq_of_le (show i'.val ≤ i.val by omega) with hi' | hi'
  · exact scan_word_none (hlt i' hi') j'
  · obtain rfl := Fin.ext hi'
    exact hbelow j' (Fin.lt_def.mpr (by omega))

/-! ## One call -/

theorem pmm_alloc_page_some {pmm : Pmm} {f : Frame} (h : scan pmm.pmm_bitmap = some f) :
    pmm_alloc_page pmm = (addrOf f, { pmm with pmm_bitmap := bitmap_set pmm.pmm_bitmap f }) := by
  unfold pmm_alloc_page
  rw [h]

theorem pmm_alloc_page_none {pmm : Pmm} (h : scan pmm.pmm_bitmap = none) :
    (pmm_alloc_page pmm).1 = 0#32 ∧ (pmm_alloc_page pmm).2.pmm_bitmap = pmm.pmm_bitmap := by
  unfold pmm_alloc_page
  rw [h]
  exact ⟨rfl, rfl⟩

theorem pmm_alloc_page_spec (pmm : Pmm) :
    (∃ f ∈ freeFrames pmm.pmm_bitmap, (pmm_alloc_page pmm).1 = addrOf f ∧
        freeFrames (pmm_alloc_page pmm).2.pmm_bitmap = freeFrames pmm.pmm_bitmap \ {f}) ∨
      (freeFrames pmm.pmm_bitmap = ∅ ∧ (pmm_alloc_page pmm).1 = 0#32 ∧
        (pmm_alloc_page pmm).2.pmm_bitmap = pmm.pmm_bitmap) := by
  cases h : scan pmm.pmm_bitmap with
  | some f =>
    refine Or.inl ⟨f, (scan_some h).1, ?_, ?_⟩
    · rw [pmm_alloc_page_some h]
    · rw [pmm_alloc_page_some h, freeFrames_set]
  | none => exact Or.inr ⟨scan_none h, pmm_alloc_page_none h⟩

/-- The page does not depend on the line, and the line gets a text when there is none. -/
theorem pmm_alloc_page_prints {pmm : Pmm} (h0 : 0 ∉ freeFrames pmm.pmm_bitmap) (serial : Serial) :
    pmm_alloc_page ⟨pmm.pmm_bitmap, serial⟩ = ((pmm_alloc_page pmm).1, ⟨(pmm_alloc_page pmm).2.pmm_bitmap,
      if (pmm_alloc_page pmm).1 = 0#32 then
        serial_print serial (ascii "PMM PANIC: Out of physical memory!\n") else serial⟩) := by
  cases hscan : scan pmm.pmm_bitmap with
  | none =>
    unfold pmm_alloc_page
    dsimp only
    rw [hscan]
    rfl
  | some f =>
    have hf : addrOf f ≠ 0#32 := fun hzero => h0 ((addrOf_eq_zero f).mp hzero ▸ (scan_some hscan).1)
    unfold pmm_alloc_page
    dsimp only
    rw [hscan]
    exact congrArg (fun serial => (addrOf f, Pmm.mk _ serial)) (if_neg hf).symm

theorem scan_least {bm : Bitmap} {f : Frame} (h : IsLeast (freeFrames bm) f) : scan bm = some f := by
  cases hscan : scan bm with
  | none => exact absurd (scan_none hscan ▸ h.1) (Set.notMem_empty f)
  | some g =>
    obtain ⟨hg, hbelow⟩ := scan_some hscan
    have hle : f ≤ g := h.2 hg
    rw [hle.antisymm' (le_of_not_gt fun hlt => hbelow f hlt h.1)]

theorem pmm_free_page_spec (pmm : Pmm) (a : Word) :
    freeFrames (pmm_free_page pmm a).pmm_bitmap = insert (frameOf a) (freeFrames pmm.pmm_bitmap) :=
  freeFrames_clear _ _

/-! ## A caller under the contract -/

structure Client where
  pmm : Pmm
  live : Set Word

inductive Call
  | alloc (ret : Word)
  | free (phys_addr : Word)

/-- Only a held address is freed. A returned 0 is no address: it says that memory is out. -/
inductive Client.Step : Client → Call → Client → Prop
  | alloc {pmm pmm' : Pmm} {live : Set Word} {ret : Word} :
      pmm_alloc_page pmm = (ret, pmm') →
      Step ⟨pmm, live⟩ (.alloc ret) ⟨pmm', if ret = 0#32 then live else insert ret live⟩
  | free {pmm : Pmm} {live : Set Word} {a : Word} :
      a ∈ live → Step ⟨pmm, live⟩ (.free a) ⟨pmm_free_page pmm a, live \ {a}⟩

theorem Client.Step.least {pmm : Pmm} {f : Frame} (live : Set Word)
    (h : IsLeast (freeFrames pmm.pmm_bitmap) f) (h0 : f ≠ 0) :
    ∃ pmm', Client.Step ⟨pmm, live⟩ (.alloc (addrOf f)) ⟨pmm', insert (addrOf f) live⟩ ∧
      freeFrames pmm'.pmm_bitmap = freeFrames pmm.pmm_bitmap \ {f} := by
  have hstep : Client.Step ⟨pmm, live⟩ (.alloc (addrOf f)) _ := .alloc (pmm_alloc_page_some (scan_least h))
  rw [if_neg fun hzero => h0 ((addrOf_eq_zero f).mp hzero)] at hstep
  exact ⟨_, hstep, freeFrames_set _ f⟩

def Call.abs : Call → Pool.Call Frame
  | .alloc ret => if ret = 0#32 then .exhausted else .take (frameOf ret)
  | .free a => .give (frameOf a)

/-- The bitmap is the pool: its free frames are free, and the pages of the held addresses are
live. Frame 0 is neither, so no held address is 0. -/
structure Client.Refines (c : Client) (p : Pool Frame) : Prop where
  free : freeFrames c.pmm.pmm_bitmap = p.free
  live : frameOf '' c.live = p.live
  pages : ∀ a ∈ c.live, a = addrOf (frameOf a)
  zero_free : 0 ∉ p.free
  zero_live : 0 ∉ p.live

theorem Client.Refines.injOn {c : Client} {p : Pool Frame} (h : c.Refines p) :
    Set.InjOn frameOf c.live := by
  intro a ha b hb hab
  rw [h.pages a ha, h.pages b hb, hab]

theorem Client.Refines.ne_zero {c : Client} {p : Pool Frame} (h : c.Refines p) {a : Word}
    (ha : a ∈ c.live) : a ≠ 0#32 := by
  rintro rfl
  exact h.zero_live (h.live ▸ ⟨_, ha, rfl⟩)

theorem Client.Refines.alloc {c : Client} {pmm' : Pmm} {ret : Word} {p : Pool Frame}
    (h : c.Refines p) (hcall : pmm_alloc_page c.pmm = (ret, pmm')) :
    (∃ f ∈ p.free, ret = addrOf f ∧ ret ≠ 0#32 ∧ freeFrames pmm'.pmm_bitmap = p.free \ {f}) ∨
      (p.free = ∅ ∧ ret = 0#32 ∧ freeFrames pmm'.pmm_bitmap = ∅) := by
  have hspec := pmm_alloc_page_spec c.pmm
  rw [hcall, h.free] at hspec
  rcases hspec with ⟨f, hf, hret, hnew⟩ | ⟨hnone, hret, hsame⟩
  · refine Or.inl ⟨f, hf, hret, ?_, hnew⟩
    rw [show ret = addrOf f from hret, ne_eq, addrOf_eq_zero]
    rintro rfl
    exact h.zero_free hf
  · refine Or.inr ⟨hnone, hret, ?_⟩
    rw [show pmm'.pmm_bitmap = c.pmm.pmm_bitmap from hsame, h.free, hnone]

theorem Client.Step.refines {c d : Client} {p : Pool Frame} {call : Call} (hc : c.Refines p)
    (h : Client.Step c call d) : ∃ q, Pool.Step p call.abs q ∧ d.Refines q := by
  obtain ⟨free, live⟩ := p
  have hlive : frameOf '' c.live = live := hc.live
  cases h with
  | @alloc pmm pmm' held ret hcall =>
    rcases hc.alloc hcall with ⟨f, hf, hret, hne, hnew⟩ | ⟨hnone, hret, hnew⟩
    · have hframe : frameOf ret = f := by rw [hret, frameOf_addrOf]
      simp only [Call.abs, hne, if_false, hframe]
      refine ⟨⟨free \ {f}, insert f live⟩, .take hf, hnew, ?_, ?_, ?_, ?_⟩
      · rw [Set.image_insert_eq, hframe, hlive]
      · rintro a (rfl | ha)
        · rw [hframe, hret]
        · exact hc.pages a ha
      · exact fun h0 => hc.zero_free h0.1
      · rintro (h0 | h0)
        · exact hc.zero_free (h0 ▸ hf)
        · exact hc.zero_live h0
    · obtain rfl : free = ∅ := hnone
      simp only [Call.abs, hret, if_true]
      exact ⟨⟨∅, live⟩, .exhausted, hnew, hlive, hc.pages, hc.zero_free, hc.zero_live⟩
  | @free pmm held a ha =>
    have hmem : frameOf a ∈ live := hlive ▸ ⟨a, ha, rfl⟩
    refine ⟨⟨insert (frameOf a) free, live \ {frameOf a}⟩, .give hmem, ?_, ?_, ?_, ?_, ?_⟩
    · rw [pmm_free_page_spec, show freeFrames pmm.pmm_bitmap = free from hc.free]
    · rw [hc.injOn.image_sdiff_subset (Set.singleton_subset_iff.mpr ha), Set.image_singleton, hlive]
    · exact fun b hb => hc.pages b hb.1
    · rintro (h0 | h0)
      · exact hc.zero_live (h0 ▸ hmem)
      · exact hc.zero_free h0
    · exact fun h0 => hc.zero_live h0.1

theorem Client.start_refines {pmm : Pmm} (h0 : bitmap_test pmm.pmm_bitmap 0 ≠ 0#32) :
    Client.Refines ⟨pmm, ∅⟩ ⟨freeFrames pmm.pmm_bitmap, ∅⟩ :=
  ⟨rfl, by simp, by simp, h0, by simp⟩

theorem Client.run_refines {pmm : Pmm} (h0 : bitmap_test pmm.pmm_bitmap 0 ≠ 0#32)
    {calls : List Call} {c : Client} (h : Run Client.Step ⟨pmm, ∅⟩ calls c) :
    ∃ p, Run Pool.Step ⟨freeFrames pmm.pmm_bitmap, ∅⟩ (calls.map Call.abs) p ∧ c.Refines p :=
  h.simulation Client.Refines Call.abs (Client.start_refines h0) (fun _ _ _ _ hR hs => hs.refines hR)

theorem Client.run_returned {pmm : Pmm} (h0 : bitmap_test pmm.pmm_bitmap 0 ≠ 0#32)
    {calls : List Call} {c : Client} (h : Run Client.Step ⟨pmm, ∅⟩ calls c) {a : Word}
    (ha : Call.alloc a ∈ calls) (hne : a ≠ 0#32) : frameOf a ∈ freeFrames pmm.pmm_bitmap := by
  obtain ⟨p, hp, -⟩ := Client.run_refines h0 h
  apply Pool.run_taken hp
  exact List.mem_map.mpr ⟨_, ha, by simp [Call.abs, hne]⟩

/-- **The allocator over whole runs.** No page is handed out twice, the free frames are the first
ones without the pages held, and 0 comes back exactly when no frame is free. -/
theorem alloc_run_spec (pmm : Pmm) (h0 : bitmap_test pmm.pmm_bitmap 0 ≠ 0#32) (calls : List Call)
    (c : Client) (h : Run Client.Step ⟨pmm, ∅⟩ calls c) :
    (pmm_alloc_page c.pmm).1 ∉ c.live ∧
      freeFrames c.pmm.pmm_bitmap = freeFrames pmm.pmm_bitmap \ frameOf '' c.live ∧
      Set.InjOn frameOf c.live ∧ (∀ a ∈ c.live, a = addrOf (frameOf a)) ∧
      frameOf '' c.live ⊆ freeFrames pmm.pmm_bitmap ∧
      (∀ a, Call.alloc a ∈ calls → a ≠ 0#32 → frameOf a ∈ freeFrames pmm.pmm_bitmap) ∧
      ((pmm_alloc_page c.pmm).1 = 0#32 ↔ freeFrames c.pmm.pmm_bitmap = ∅) := by
  obtain ⟨p, hp, hc⟩ := Client.run_refines h0 h
  have hsplits := Pool.run_splits hp
  have hfree : freeFrames c.pmm.pmm_bitmap = p.free := hc.free
  refine ⟨?_, ?_, hc.injOn, hc.pages, ?_, fun a => Client.run_returned h0 h, ?_⟩
  · intro hmem
    rcases hc.alloc Prod.mk.eta.symm with ⟨f, hf, hret, -, -⟩ | ⟨-, hret, -⟩
    · have hlive : f ∈ p.live := by
        rw [← hc.live, ← frameOf_addrOf f, ← hret]
        exact ⟨_, hmem, rfl⟩
      exact Set.disjoint_left.mp hsplits.2 hf hlive
    · exact hc.ne_zero hmem hret
  · rw [hfree, hc.live, hsplits.free_eq]
  · exact hc.live ▸ hsplits.live_subset
  · rw [hfree]
    rcases hc.alloc Prod.mk.eta.symm with ⟨f, hf, -, hne, -⟩ | ⟨hnone, hret, -⟩
    · exact ⟨fun h => absurd h hne, fun h => absurd (h ▸ hf) (by simp)⟩
    · exact ⟨fun _ => hnone, fun _ => hret⟩

/-- A machine whose only free page is frame 5. -/
def onePage : Pmm := ⟨bitmap_clear (Vector.replicate _ 0xFFFFFFFF#32) 5, []⟩

theorem freeFrames_full : freeFrames (Vector.replicate PMM_BITMAP_SIZE 0xFFFFFFFF#32) = ∅ := by
  rw [freeFrames_eq]
  apply Set.eq_empty_of_forall_notMem
  intro f hf
  have := bitAt_of_allOnes (Vector.replicate PMM_BITMAP_SIZE 0xFFFFFFFF#32) f (by simp)
  simp_all

theorem freeFrames_onePage : freeFrames onePage.pmm_bitmap = {5} := by
  rw [onePage, freeFrames_clear, freeFrames_full]
  simp

/-- Frames 5 and 9 are free. -/
def twoPages : Pmm := ⟨bitmap_clear (bitmap_clear (Vector.replicate _ 0xFFFFFFFF#32) 9) 5, []⟩

theorem freeFrames_twoPages : freeFrames twoPages.pmm_bitmap = {5, 9} := by
  rw [twoPages, freeFrames_clear, freeFrames_clear, freeFrames_full, insert_empty_eq]

theorem twoPages_zero : bitmap_test twoPages.pmm_bitmap 0 ≠ 0#32 := by
  intro h
  have : (0 : Frame) ∈ freeFrames twoPages.pmm_bitmap := h
  rw [freeFrames_twoPages] at this
  exact absurd this (by decide)

theorem isLeast_five : IsLeast ({5, 9} : Set Frame) 5 :=
  ⟨Set.mem_insert 5 {9}, by rintro f (rfl | rfl) <;> decide⟩

theorem five_nine_sdiff : ({5, 9} : Set Frame) \ {5} = {9} :=
  Set.insert_sdiff_self_of_notMem (by decide)

/-- Both pages are taken, the first is freed and taken again: then none is left. -/
theorem alloc_run_two_pages :
    ∃ c, Run Client.Step ⟨twoPages, ∅⟩ [.alloc 0x5000#32, .alloc 0x9000#32, .free 0x5000#32, .alloc 0x5000#32] c ∧
      freeFrames c.pmm.pmm_bitmap = ∅ ∧ (pmm_alloc_page c.pmm).1 = 0#32 := by
  obtain ⟨first, hfirst, hnine⟩ := Client.Step.least ∅ (freeFrames_twoPages ▸ isLeast_five) (by decide)
  rw [freeFrames_twoPages, five_nine_sdiff] at hnine
  obtain ⟨second, hsecond, hnone⟩ := Client.Step.least _ (hnine ▸ isLeast_singleton) (by decide)
  rw [hnine, Set.sdiff_self] at hnone
  have hfive : freeFrames (pmm_free_page second (addrOf 5)).pmm_bitmap = {5} := by
    rw [pmm_free_page_spec, hnone, frameOf_addrOf, insert_empty_eq]
  obtain ⟨third, hthird, hlast⟩ := Client.Step.least _ (hfive ▸ isLeast_singleton) (by decide)
  rw [hfive, Set.sdiff_self] at hlast
  have hheld : addrOf 5 ∈ (insert (addrOf 9) (insert (addrOf 5) ∅) : Set Word) :=
    Set.mem_insert_of_mem _ (Set.mem_insert _ ∅)
  have hrun := (((Run.nil.snoc hfirst).snoc hsecond).snoc (.free hheld)).snoc hthird
  exact ⟨_, hrun, hlast, ((alloc_run_spec twoPages twoPages_zero _ _ hrun).2.2.2.2.2.2).mpr hlast⟩

end MiniOS.Memory
