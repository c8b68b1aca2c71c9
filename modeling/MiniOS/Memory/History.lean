import MiniOS.Memory.FirstFit

/-!
# Any caller

`pmm_alloc_page` and `pmm_free_page` in any order, with any addresses, held or not.
-/

open MiniOS.Lib

namespace MiniOS.Memory

inductive AnyStep (pmm : Pmm) : Call → Pmm → Prop
  | alloc : AnyStep pmm (.alloc (pmm_alloc_page pmm).1) (pmm_alloc_page pmm).2
  | free (phys_addr : Word) : AnyStep pmm (.free phys_addr) (pmm_free_page pmm phys_addr)

/-- A call that returns 0 leaves frame 0 taken, whether it took it or not. -/
def Call.page : Call → Frame
  | .alloc ret => frameOf ret
  | .free phys_addr => frameOf phys_addr

def Call.frees : Call → Bool
  | .alloc _ => false
  | .free _ => true

/-- The last call about `f`, if there was one. -/
def lastCall (f : Frame) (calls : List Call) : Option Call := (calls.filter (·.page = f)).getLast?

theorem lastCall_snoc (f : Frame) (calls : List Call) (c : Call) :
    lastCall f (calls ++ [c]) = if c.page = f then some c else lastCall f calls := by
  unfold lastCall
  rw [List.filter_append, List.filter_singleton]
  by_cases h : c.page = f
  · simp [h]
  · simp [h]

theorem lastCall_alloc (a : Word) (before between : List Call) :
    lastCall (frameOf a) (before ++ .alloc a :: between) =
      some ((lastCall (frameOf a) between).getD (.alloc a)) := by
  have hpage : (decide ((Call.alloc a).page = frameOf a)) = true := decide_eq_true rfl
  unfold lastCall
  rw [List.filter_append, List.filter_cons, if_pos hpage, List.getLast?_append, List.getLast?_cons]
  rfl

theorem lastCall_mem {f : Frame} {calls : List Call} {c : Call} (h : lastCall f calls = some c) :
    c ∈ calls ∧ c.page = f := by
  have hmem := List.mem_of_getLast? h
  rw [List.mem_filter] at hmem
  exact ⟨hmem.1, of_decide_eq_true hmem.2⟩

/-- After a call about `f`, the frame is free if the call frees. Other frames stay. -/
theorem AnyStep.free_iff {pmm pmm' : Pmm} {c : Call} (h : AnyStep pmm c pmm') (f : Frame) :
    f ∈ freeFrames pmm'.pmm_bitmap ↔ if c.page = f then c.frees = true else f ∈ freeFrames pmm.pmm_bitmap := by
  cases h with
  | alloc =>
    rcases pmm_alloc_page_spec pmm with ⟨g, -, hret, hfree⟩ | ⟨hnone, hret, hsame⟩
    · have hpage : (Call.alloc (pmm_alloc_page pmm).1).page = g := by
        show frameOf _ = g
        rw [hret, frameOf_addrOf]
      rw [hpage, hfree]
      by_cases hg : g = f
      · simp [hg, Call.frees]
      · rw [if_neg hg, Set.mem_sdiff, Set.mem_singleton_iff]
        exact and_iff_left fun h => hg h.symm
    · rw [hsame, hnone]
      split <;> simp [Call.frees]
  | free a =>
    rw [pmm_free_page_spec, Set.mem_insert_iff]
    show f = frameOf a ∨ _ ↔ if frameOf a = f then true = true else _
    by_cases hf : frameOf a = f
    · simp [hf]
    · rw [if_neg hf]
      exact or_iff_right fun h => hf h.symm

theorem run_free_iff {pmm pmm' : Pmm} {calls : List Call} (h : Run AnyStep pmm calls pmm') (f : Frame) :
    f ∈ freeFrames pmm'.pmm_bitmap ↔
      (lastCall f calls).elim (f ∈ freeFrames pmm.pmm_bitmap) (·.frees = true) := by
  induction h with
  | nil =>
    have hnone : lastCall f [] = none := rfl
    rw [hnone, Option.elim_none]
  | snoc _ hs ih =>
    rw [hs.free_iff f, lastCall_snoc]
    split
    · rw [Option.elim_some]
    · exact ih

/-- An address that is not 0 is that of a free frame. -/
theorem alloc_free {pmm : Pmm} {a : Word} (h : (pmm_alloc_page pmm).1 = a) (ha : a ≠ 0#32) :
    frameOf a ∈ freeFrames pmm.pmm_bitmap := by
  rcases pmm_alloc_page_spec pmm with ⟨g, hg, hret, -⟩ | ⟨-, hret, -⟩
  · rw [← h, hret, frameOf_addrOf]
    exact hg
  · exact absurd (h.symm.trans hret) ha

theorem alloc_zero_iff (pmm : Pmm) :
    (pmm_alloc_page pmm).1 = 0#32 ↔ freeFrames pmm.pmm_bitmap = ∅ ∨ 0 ∈ freeFrames pmm.pmm_bitmap := by
  cases hscan : scan pmm.pmm_bitmap with
  | none => exact ⟨fun _ => Or.inl (scan_none hscan), fun _ => (pmm_alloc_page_none hscan).1⟩
  | some f =>
    obtain ⟨hf, hbelow⟩ := scan_some hscan
    rw [pmm_alloc_page_some hscan]
    show addrOf f = 0#32 ↔ _
    rw [addrOf_eq_zero]
    constructor
    · rintro rfl
      exact Or.inr hf
    · rintro (hnone | hzero)
      · rw [hnone] at hf
        exact absurd hf (Set.notMem_empty f)
      · by_contra hne
        exact hbelow 0 (Fin.pos_iff_ne_zero.mpr hne) hzero

/-- **Whatever the caller does.** With any addresses freed, held or not, once or twice, a frame is free exactly
if the last call about it freed it, or it was free and there was none. A page is handed out again only
after an address in it was freed in between. A call returns 0 exactly if no frame is free, or frame 0 is. -/
theorem pmm_any_caller {pmm pmm' : Pmm} {calls : List Call} (h : Run AnyStep pmm calls pmm') :
    (∀ f, f ∈ freeFrames pmm'.pmm_bitmap ↔
      (lastCall f calls).elim (f ∈ freeFrames pmm.pmm_bitmap) (·.frees = true)) ∧
    (∀ before between after a, calls = before ++ .alloc a :: between ++ .alloc a :: after → a ≠ 0#32 →
      ∃ b, .free b ∈ between ∧ frameOf b = frameOf a) ∧
    ((pmm_alloc_page pmm').1 = 0#32 ↔
      freeFrames pmm'.pmm_bitmap = ∅ ∨ 0 ∈ freeFrames pmm'.pmm_bitmap) := by
  refine ⟨run_free_iff h, ?_, alloc_zero_iff pmm'⟩
  rintro before between after a rfl ha
  obtain ⟨mid, hrun, hrest⟩ := h.split
  obtain ⟨_, hs, -⟩ := hrest.head
  have hfree : frameOf a ∈ freeFrames mid.pmm_bitmap := by
    generalize hc : Call.alloc a = c at hs
    cases hs with
    | alloc => exact alloc_free (Call.alloc.inj hc).symm ha
    | free => cases hc
  rw [run_free_iff hrun, lastCall_alloc, Option.elim_some] at hfree
  cases hlast : lastCall (frameOf a) between with
  | none =>
    rw [hlast, Option.getD_none] at hfree
    cases hfree
  | some c =>
    rw [hlast, Option.getD_some] at hfree
    obtain ⟨hmem, hpage⟩ := lastCall_mem hlast
    cases c with
    | alloc ret => cases hfree
    | free b => exact ⟨b, hmem, hpage⟩

theorem alloc_only {pmm : Pmm} {f : Frame} (h : freeFrames pmm.pmm_bitmap = {f}) :
    AnyStep pmm (.alloc (addrOf f)) (pmm_alloc_page pmm).2 ∧
      freeFrames (pmm_alloc_page pmm).2.pmm_bitmap = ∅ := by
  have hcall := pmm_alloc_page_some (scan_eq_some_iff.mpr (isFirst_of_freeFrames h))
  have hstep : AnyStep pmm (.alloc (pmm_alloc_page pmm).1) (pmm_alloc_page pmm).2 := .alloc
  have hfst : (pmm_alloc_page pmm).1 = addrOf f := congrArg Prod.fst hcall
  rw [hfst] at hstep
  refine ⟨hstep, ?_⟩
  rw [hcall, freeFrames_set, h, Set.sdiff_self]

/-- Another address in the page is freed, and the page has two owners. -/
theorem pmm_any_caller_twice :
    ∃ pmm', Run AnyStep onePage [.alloc 0x5000#32, .free 0x5FFF#32, .alloc 0x5000#32] pmm' ∧
      ∃ b, Call.free b ∈ [Call.free 0x5FFF#32] ∧ frameOf b = frameOf 0x5000#32 := by
  obtain ⟨hfirst, hnone⟩ := alloc_only freeFrames_onePage
  have hfreed : freeFrames (pmm_free_page (pmm_alloc_page onePage).2 0x5FFF#32).pmm_bitmap = {5} := by
    rw [pmm_free_page_spec, hnone, show frameOf 0x5FFF#32 = 5 by decide, insert_empty_eq]
  have hrun := ((Run.nil.snoc hfirst).snoc (.free 0x5FFF#32)).snoc (alloc_only hfreed).1
  exact ⟨_, hrun, (pmm_any_caller hrun).2.1 [] [.free 0x5FFF#32] [] 0x5000#32 rfl (by decide)⟩

/-! ## Until nothing is left -/

/-- The free frames in ascending order. -/
def freeList (pmm_bitmap : Bitmap) : List Frame :=
  (List.finRange (32 * PMM_BITMAP_SIZE)).filter fun f => bitAt pmm_bitmap f = false

theorem freeList_head (bm : Bitmap) : (freeList bm).head? = scan bm := by
  unfold freeList
  rw [List.head?_filter, scan_eq_linearScan, linearScan]
  congr 1
  funext f
  rw [decide_eq_decide]
  exact bitAt_eq_false

theorem freeList_set {bm : Bitmap} {f : Frame} {rest : List Frame} (h : freeList bm = f :: rest) :
    freeList (bitmap_set bm f) = rest := by
  have hnodup : (freeList bm).Nodup := (List.nodup_finRange _).filter _
  have hset : freeList (bitmap_set bm f) = (freeList bm).filter (· ≠ f) := by
    unfold freeList
    rw [List.filter_filter]
    refine List.filter_congr fun g _ => ?_
    rw [bitmap_set_eq, bitAt_setBit, ← Bool.decide_and, decide_eq_decide, Bool.or_eq_false_iff,
      decide_eq_false_iff_not]
  rw [h, List.nodup_cons] at hnodup
  rw [hset, h, List.filter_cons, if_neg (by simp)]
  exact List.filter_eq_self.mpr fun g hg => decide_eq_true fun heq => hnodup.1 (heq ▸ hg)

theorem alloc_fst (pmm : Pmm) :
    (pmm_alloc_page pmm).1 = ((freeList pmm.pmm_bitmap).head?).elim 0#32 addrOf := by
  rw [freeList_head]
  cases h : scan pmm.pmm_bitmap with
  | none => exact (pmm_alloc_page_none h).1
  | some f => rw [pmm_alloc_page_some h, Option.elim_some]

theorem alloc_freeList (pmm : Pmm) :
    freeList (pmm_alloc_page pmm).2.pmm_bitmap = (freeList pmm.pmm_bitmap).tail := by
  have hhead := freeList_head pmm.pmm_bitmap
  cases hlist : freeList pmm.pmm_bitmap with
  | nil =>
    rw [hlist] at hhead
    rw [(pmm_alloc_page_none hhead.symm).2, hlist, List.tail_nil]
  | cons f rest =>
    rw [hlist] at hhead
    rw [pmm_alloc_page_some hhead.symm]
    exact freeList_set hlist

/-- **All of memory, in order.** Calls that only allocate return the free frames from the lowest to the
highest, each once, and 0 from then on. What is left is free still. -/
theorem pmm_exhausts {pmm pmm' : Pmm} {calls : List Call} (h : Run AnyStep pmm calls pmm')
    (hallocs : ∀ c ∈ calls, c.frees = false) :
    (∀ i < calls.length, calls[i]? = some (.alloc (((freeList pmm.pmm_bitmap)[i]?).elim 0#32 addrOf))) ∧
      freeList pmm'.pmm_bitmap = (freeList pmm.pmm_bitmap).drop calls.length := by
  induction h with
  | nil => exact ⟨fun i hi => absurd hi (Nat.not_lt_zero i), rfl⟩
  | @snoc calls c s t hrun hs ih =>
    obtain ⟨hbefore, hc⟩ := List.forall_mem_append.mp hallocs
    obtain ⟨hcalls, hleft⟩ := ih hbefore
    have hlength : (calls ++ [c]).length = calls.length + 1 := List.length_append
    cases hs with
    | free => exact absurd (hc _ List.mem_cons_self) Bool.true_eq_false.mp
    | alloc =>
      rw [hlength]
      refine ⟨fun i hi => ?_, ?_⟩
      · rcases Nat.lt_succ_iff_lt_or_eq.mp hi with hi | rfl
        · rw [List.getElem?_append_left hi]
          exact hcalls i hi
        · rw [List.getElem?_concat_length, alloc_fst, hleft, List.head?_drop]
      · rw [alloc_freeList, hleft, List.tail_drop]

theorem freeList_eq {bm : Bitmap} {l : List Frame} (hl : l.Pairwise (· < ·))
    (h : ∀ f, f ∈ l ↔ f ∈ freeFrames bm) : freeList bm = l := by
  refine ((List.pairwise_lt_finRange _).filter _).eq_of_mem_iff hl fun f => ?_
  rw [h, List.mem_filter, decide_eq_true_eq, bitAt_eq_false]
  exact and_iff_right (List.mem_finRange f)

/-- Two pages, and then 0. -/
theorem pmm_exhausts_two_pages :
    ∃ pmm', Run AnyStep twoPages [.alloc 0x5000#32, .alloc 0x9000#32, .alloc 0#32] pmm' ∧
      freeList pmm'.pmm_bitmap = [] := by
  have hlist : freeList twoPages.pmm_bitmap = [5, 9] := by
    refine freeList_eq (by decide) fun f => ?_
    rw [freeFrames_twoPages, List.mem_pair]
    rfl
  obtain ⟨pmm', calls, hrun, hallocs, hthree⟩ : ∃ pmm' calls, Run AnyStep twoPages calls pmm' ∧
      (∀ c ∈ calls, c.frees = false) ∧ calls.length = 3 :=
    ⟨_, _, ((Run.nil.snoc .alloc).snoc .alloc).snoc .alloc, by simp [Call.frees], rfl⟩
  obtain ⟨hcalls, hleft⟩ := pmm_exhausts hrun hallocs
  obtain rfl : calls = [.alloc 0x5000#32, .alloc 0x9000#32, .alloc 0#32] := by
    refine List.ext_getElem? fun i => ?_
    rw [hthree, hlist] at hcalls
    match i with
    | 0 | 1 | 2 => exact hcalls _ (by decide)
    | i + 3 =>
      rw [List.getElem?_eq_none (by omega)]
      rfl
  exact ⟨pmm', hrun, by rw [hleft, hlist, hthree]; rfl⟩

end MiniOS.Memory
