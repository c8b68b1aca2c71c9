import MiniOS.Memory.Alloc

/-!
# First fit

`pmm_alloc_page` against a scan of the bits one by one, and the signed numbers that it
computes on the way.
-/

open MiniOS.Lib

namespace MiniOS.Memory

/-- The scan without the step over full words. -/
def linearScan (pmm_bitmap : Bitmap) : Option Frame :=
  (List.finRange (32 * PMM_BITMAP_SIZE)).find? fun bit => bitmap_test pmm_bitmap bit = 0#32

/-- The first free frame. -/
def IsFirst (bm : Bitmap) (f : Frame) : Prop := bitAt bm f = false ∧ ∀ g < f, bitAt bm g = true

theorem bitAt_eq_false {bm : Bitmap} {f : Frame} : bitAt bm f = false ↔ bitmap_test bm f = 0#32 := by
  rw [← Bool.not_eq_true, ← bitmap_test_ne_zero, not_not]

theorem IsFirst.not_lt {bm : Bitmap} {f g : Frame} (hf : IsFirst bm f) (hg : IsFirst bm g) : ¬ f < g := by
  intro h
  have hset := hg.2 f h
  rw [hf.1] at hset
  exact Bool.false_ne_true hset

theorem IsFirst.unique {bm : Bitmap} {f g : Frame} (hf : IsFirst bm f) (hg : IsFirst bm g) : f = g :=
  le_antisymm (le_of_not_gt (hg.not_lt hf)) (le_of_not_gt (hf.not_lt hg))

theorem isFirst_of_scan {bm : Bitmap} {f : Frame} (h : scan bm = some f) : IsFirst bm f := by
  obtain ⟨hfree, hbelow⟩ := scan_some h
  refine ⟨bitAt_eq_false.mpr hfree, fun g hg => ?_⟩
  exact (bitmap_test_ne_zero bm g).mp (hbelow g hg)

theorem scan_eq_some_iff {bm : Bitmap} {f : Frame} : scan bm = some f ↔ IsFirst bm f := by
  refine ⟨isFirst_of_scan, fun hf => ?_⟩
  cases h : scan bm with
  | some g => rw [(isFirst_of_scan h).unique hf]
  | none =>
    have hnone := scan_none h
    have hmem : f ∈ freeFrames bm := bitAt_eq_false.mp hf.1
    rw [hnone] at hmem
    exact absurd hmem (Set.notMem_empty f)

theorem linearScan_eq_some_iff {bm : Bitmap} {f : Frame} : linearScan bm = some f ↔ IsFirst bm f := by
  rw [linearScan, List.find?_eq_findSome?_guard, findSome?_finRange]
  simp only [Option.guard_eq_some_iff, Option.guard_eq_none_iff, decide_eq_true_eq]
  constructor
  · rintro ⟨i, ⟨rfl, hfree⟩, hbelow⟩
    refine ⟨bitAt_eq_false.mpr hfree, fun g hg => ?_⟩
    exact (bitmap_test_ne_zero bm g).mp (by simpa using hbelow g hg)
  · rintro ⟨hfree, hbelow⟩
    refine ⟨f, ⟨rfl, bitAt_eq_false.mp hfree⟩, fun g hg => ?_⟩
    simpa using (bitmap_test_ne_zero bm g).mpr (hbelow g hg)

theorem scan_eq_linearScan (bm : Bitmap) : scan bm = linearScan bm :=
  Option.ext fun _ => scan_eq_some_iff.trans linearScan_eq_some_iff.symm

theorem bitmap_clear_set {bm : Bitmap} {f : Frame} (h : bitAt bm f = false) :
    bitmap_clear (bitmap_set bm f) f = bm := by
  have hmem : f ∈ clearBits bm := h
  apply words_ext (w := 32)
  rw [bitmap_clear_eq, bitmap_set_eq, clearBits_clearBit, clearBits_setBit, Set.insert_sdiff_singleton,
    Set.insert_eq_of_mem hmem]

/-- **Exact first fit.** The call takes the first free frame, sets its bit and no other, and giving
the page back restores the bitmap. Without a free frame it returns 0. -/
theorem pmm_alloc_page_first_fit (pmm : Pmm) :
    scan pmm.pmm_bitmap = linearScan pmm.pmm_bitmap ∧
      (∀ f, bitAt pmm.pmm_bitmap f = false → (∀ g < f, bitAt pmm.pmm_bitmap g = true) →
        (pmm_alloc_page pmm).1.toNat = 4096 * f.val % 2 ^ 32 ∧
        (∀ g, bitAt (pmm_alloc_page pmm).2.pmm_bitmap g = (decide (g = f) || bitAt pmm.pmm_bitmap g)) ∧
        (pmm_free_page (pmm_alloc_page pmm).2 (pmm_alloc_page pmm).1).pmm_bitmap = pmm.pmm_bitmap) ∧
      ((∀ f, bitAt pmm.pmm_bitmap f = true) →
        (pmm_alloc_page pmm).1 = 0#32 ∧ (pmm_alloc_page pmm).2.pmm_bitmap = pmm.pmm_bitmap) := by
  refine ⟨scan_eq_linearScan _, fun f hfree hbelow => ?_, fun hfull => ?_⟩
  · rw [pmm_alloc_page_some (scan_eq_some_iff.mpr ⟨hfree, hbelow⟩)]
    refine ⟨?_, fun g => ?_, ?_⟩
    · rw [addrOf, BitVec.toNat_ofNat, Nat.mul_comm]
    · rw [bitmap_set_eq, bitAt_setBit]
    · simp only [pmm_free_page, frameOf_addrOf]
      exact bitmap_clear_set hfree
  · apply pmm_alloc_page_none
    rw [Option.eq_none_iff_forall_ne_some]
    intro f hf
    have hfree := (scan_eq_some_iff.mp hf).1
    rw [hfull f] at hfree
    exact absurd hfree (by decide)

theorem isFirst_of_freeFrames {bm : Bitmap} {f : Frame} (h : freeFrames bm = {f}) : IsFirst bm f := by
  have hbit : ∀ g, bitAt bm g = false ↔ g = f := by
    intro g
    rw [bitAt_eq_false, ← mem_freeFrames, h, Set.mem_singleton_iff]
  refine ⟨(hbit f).mpr rfl, fun g hg => ?_⟩
  rw [← Bool.not_eq_false, hbit]
  exact hg.ne

theorem first_fit_one_page :
    (pmm_free_page (pmm_alloc_page onePage).2 (pmm_alloc_page onePage).1).pmm_bitmap =
      onePage.pmm_bitmap :=
  have hfirst := isFirst_of_freeFrames freeFrames_onePage
  ((pmm_alloc_page_first_fit onePage).2.1 5 hfirst.1 hfirst.2).2.2

/-! ## Signed numbers -/

def IsInt (v : ℤ) : Prop := -2 ^ 31 ≤ v ∧ v ≤ 2 ^ 31 - 1

/-- `1 << (bit % 32)` as a signed number, before any wrap. -/
def maskInt (bit : Frame) : ℤ := (1 : ℤ) <<< (bit.val % 32)

/-- The loop over the bits of word `i`, with the numbers that it computes: `i * 32 + j`, the shift in
`bitmap_test`, and in the last round the shift in `bitmap_set` and the address. -/
def scanWordInts (pmm_bitmap : Bitmap) (i : Fin PMM_BITMAP_SIZE) : List (Fin 32) → Option Frame × List ℤ
  | [] => (none, [])
  | j :: js =>
    let bit := frameAt i j
    let tested := [(i.val : ℤ) * 32 + j.val, maskInt bit]
    if bitmap_test pmm_bitmap bit = 0#32 then (some bit, tested ++ [maskInt bit, (bit.val : ℤ) * PAGE_SIZE])
    else ((scanWordInts pmm_bitmap i js).1, tested ++ (scanWordInts pmm_bitmap i js).2)

/-- The loop over the words. -/
def scanInts (pmm_bitmap : Bitmap) : List (Fin PMM_BITMAP_SIZE) → Option Frame × List ℤ
  | [] => (none, [])
  | i :: is =>
    if pmm_bitmap.get i ≠ 0xFFFFFFFF#32 then
      let word := scanWordInts pmm_bitmap i (List.finRange 32)
      match word.1 with
      | some bit => (some bit, word.2)
      | none => ((scanInts pmm_bitmap is).1, word.2 ++ (scanInts pmm_bitmap is).2)
    else scanInts pmm_bitmap is

def allocInts (pmm_bitmap : Bitmap) : Option Frame × List ℤ :=
  scanInts pmm_bitmap (List.finRange PMM_BITMAP_SIZE)

theorem scanWordInts_fst (bm : Bitmap) (i : Fin PMM_BITMAP_SIZE) (js : List (Fin 32)) :
    (scanWordInts bm i js).1 =
      js.findSome? fun j => if bitmap_test bm (frameAt i j) = 0#32 then some (frameAt i j) else none := by
  induction js with
  | nil => rfl
  | cons j js ih =>
    rw [scanWordInts, List.findSome?_cons]
    split
    · rfl
    · exact ih

theorem scanWordInts_finRange (bm : Bitmap) (i : Fin PMM_BITMAP_SIZE) :
    (scanWordInts bm i (List.finRange 32)).1 = scanWord bm i := scanWordInts_fst ..

/-- A word that is not full has a free bit. -/
theorem exists_scanWord {bm : Bitmap} {i : Fin PMM_BITMAP_SIZE} (h : bm.get i ≠ 0xFFFFFFFF#32) :
    ∃ f, scanWord bm i = some f := by
  rw [← Option.ne_none_iff_exists']
  intro hnone
  apply h
  apply BitVec.eq_of_getLsbD_eq
  intro k hk
  have hbit := (bitmap_test_ne_zero bm _).mp (scanWord_none hnone ⟨k, hk⟩)
  have hmod : (frameAt i ⟨k, hk⟩).val % 32 = k := by
    simp only [frameAt]
    omega
  rw [bitAt, frameAt_word, hmod] at hbit
  have hones : (BitVec.allOnes 32).getLsbD k = true := by
    rw [BitVec.getLsbD_allOnes]
    exact decide_eq_true hk
  exact hbit.trans hones.symm

/-- The loop computes numbers only in the first word that is not full. -/
theorem scanInts_eq (bm : Bitmap) (is : List (Fin PMM_BITMAP_SIZE)) :
    scanInts bm is = match is.find? fun i => bm.get i ≠ 0xFFFFFFFF#32 with
      | some i => scanWordInts bm i (List.finRange 32)
      | none => (none, []) := by
  induction is with
  | nil => rfl
  | cons i is ih =>
    simp only [scanInts, List.find?_cons]
    by_cases hfull : bm.get i = 0xFFFFFFFF#32
    · simpa [hfull] using ih
    · obtain ⟨f, hf⟩ := exists_scanWord hfull
      rw [← scanWordInts_finRange] at hf
      simp only [hfull, hf, ne_eq, not_false_eq_true, if_true, decide_true]
      rw [← hf]

theorem scanInts_fst (bm : Bitmap) (is : List (Fin PMM_BITMAP_SIZE)) : (scanInts bm is).1 =
    is.findSome? fun i => if bm.get i ≠ 0xFFFFFFFF#32 then scanWord bm i else none := by
  induction is with
  | nil => rfl
  | cons i is ih =>
    simp only [scanInts, List.findSome?_cons, scanWordInts_finRange]
    split
    · cases scanWord bm i with
      | some bit => rfl
      | none => exact ih
    · exact ih

/-- The numbers are those of the call: the loops end at the frame that the call returns. -/
theorem allocInts_fst (bm : Bitmap) : (allocInts bm).1 = scan bm := scanInts_fst ..

theorem frameAt_mod (i : Fin PMM_BITMAP_SIZE) (j : Fin 32) : (frameAt i j).val % 32 = j.val := by
  simp only [frameAt]
  omega

theorem maskInt_eq (i : Fin PMM_BITMAP_SIZE) (j : Fin 32) : maskInt (frameAt i j) = 2 ^ j.val := by
  rw [maskInt, frameAt_mod, Int.shiftLeft_eq, one_mul]

theorem scanWordInts_mem {bm : Bitmap} {i : Fin PMM_BITMAP_SIZE} {js : List (Fin 32)} {f : Frame}
    (hjs : js.Pairwise (· < ·)) (h : (scanWordInts bm i js).1 = some f) :
    ∃ j ∈ js, f = frameAt i j ∧ maskInt f ∈ (scanWordInts bm i js).2 ∧
      (f.val : ℤ) * PAGE_SIZE ∈ (scanWordInts bm i js).2 ∧
      ∀ v ∈ (scanWordInts bm i js).2, v = (f.val : ℤ) * PAGE_SIZE ∨
        ∃ k ≤ j, v = (i.val : ℤ) * 32 + k.val ∨ v = maskInt (frameAt i k) := by
  induction js with
  | nil => cases h
  | cons j js ih =>
    rw [List.pairwise_cons] at hjs
    by_cases hfree : bitmap_test bm (frameAt i j) = 0#32
    · simp only [scanWordInts, if_pos hfree, Option.some.injEq] at h ⊢
      subst h
      refine ⟨j, by simp, rfl, by simp, by simp, fun v hv => ?_⟩
      simp only [List.cons_append, List.nil_append, List.mem_cons, List.not_mem_nil, or_false] at hv
      rcases hv with hv | hv | hv | hv
      · exact Or.inr ⟨j, le_refl j, Or.inl hv⟩
      · exact Or.inr ⟨j, le_refl j, Or.inr hv⟩
      · exact Or.inr ⟨j, le_refl j, Or.inr hv⟩
      · exact Or.inl hv
    · simp only [scanWordInts, if_neg hfree] at h ⊢
      obtain ⟨l, hl, hf, hmask, haddr, hall⟩ := ih hjs.2 h
      refine ⟨l, List.mem_cons_of_mem _ hl, hf, List.mem_append_right _ hmask,
        List.mem_append_right _ haddr, fun v hv => ?_⟩
      rw [List.mem_append] at hv
      rcases hv with hv | hv
      · simp only [List.mem_cons, List.not_mem_nil, or_false] at hv
        exact Or.inr ⟨j, (hjs.1 l hl).le, hv⟩
      · exact hall v hv

theorem allocInts_mem {bm : Bitmap} {f : Frame} (h : scan bm = some f) :
    maskInt f ∈ (allocInts bm).2 ∧ (f.val : ℤ) * PAGE_SIZE ∈ (allocInts bm).2 ∧
      ∀ v ∈ (allocInts bm).2, v = (f.val : ℤ) * PAGE_SIZE ∨
        ∃ i j k, f = frameAt i j ∧ k ≤ j ∧ (v = (i.val : ℤ) * 32 + k.val ∨ v = maskInt (frameAt i k)) := by
  rw [← allocInts_fst, allocInts, scanInts_eq] at h
  rw [allocInts, scanInts_eq]
  cases hfind : (List.finRange PMM_BITMAP_SIZE).find? fun i => bm.get i ≠ 0xFFFFFFFF#32 with
  | none =>
    rw [hfind] at h
    cases h
  | some i =>
    rw [hfind] at h
    obtain ⟨j, -, hf, hmask, haddr, hall⟩ := scanWordInts_mem (List.pairwise_lt_finRange 32) h
    refine ⟨hmask, haddr, fun v hv => (hall v hv).imp_right ?_⟩
    rintro ⟨k, hk, hv⟩
    exact ⟨i, j, k, hf, hk, hv⟩

theorem allocInts_none {bm : Bitmap} (h : scan bm = none) : (allocInts bm).2 = [] := by
  rw [← allocInts_fst, allocInts, scanInts_eq] at h
  rw [allocInts, scanInts_eq]
  cases hfind : (List.finRange PMM_BITMAP_SIZE).find? fun i => bm.get i ≠ 0xFFFFFFFF#32 with
  | none => rfl
  | some i =>
    have hfull : bm.get i ≠ 0xFFFFFFFF#32 := by simpa using List.find?_some hfind
    obtain ⟨f, hf⟩ := exists_scanWord hfull
    rw [hfind] at h
    rw [← scanWordInts_finRange] at hf
    rw [show (scanWordInts bm i (List.finRange 32)).1 = none from h] at hf
    cases hf

theorem isInt_mask {f : Frame} : IsInt (maskInt f) ↔ f.val % 32 ≠ 31 := by
  have hpow : ∀ j : Fin 32, IsInt (2 ^ j.val) ↔ j.val ≠ 31 := by
    unfold IsInt
    decide
  obtain ⟨i, j, rfl⟩ := exists_frameAt f
  rw [maskInt_eq, frameAt_mod, hpow]

theorem isInt_addr {f : Frame} : IsInt ((f.val : ℤ) * PAGE_SIZE) ↔ f.val < 2 ^ 19 := by
  simp only [IsInt, PAGE_SIZE]
  omega

theorem isInt_index (i : Fin PMM_BITMAP_SIZE) (j : Fin 32) : IsInt ((i.val : ℤ) * 32 + j.val) := by
  have := (frameAt i j).lt
  simp only [frameAt, IsInt] at *
  omega

/-- **Signed overflow.** All numbers of a call fit an `int` exactly when there is no free frame, or the
first one lies below 2 GiB and is not the last of its word. -/
theorem alloc_ints_iff (pmm_bitmap : Bitmap) : (∀ v ∈ (allocInts pmm_bitmap).2, IsInt v) ↔
    ∀ f, bitAt pmm_bitmap f = false → (∀ g < f, bitAt pmm_bitmap g = true) →
      f.val < 2 ^ 19 ∧ f.val % 32 ≠ 31 := by
  constructor
  · intro hints f hfree hbelow
    obtain ⟨hmask, haddr, -⟩ := allocInts_mem (scan_eq_some_iff.mpr ⟨hfree, hbelow⟩)
    exact ⟨isInt_addr.mp (hints _ haddr), isInt_mask.mp (hints _ hmask)⟩
  · intro hfirst v hv
    cases hscan : scan pmm_bitmap with
    | none =>
      rw [allocInts_none hscan] at hv
      exact absurd hv List.not_mem_nil
    | some f =>
      have hf := scan_eq_some_iff.mp hscan
      obtain ⟨hlow, hlast⟩ := hfirst f hf.1 hf.2
      rcases (allocInts_mem hscan).2.2 v hv with rfl | ⟨i, j, k, rfl, hk, rfl | rfl⟩
      · exact isInt_addr.mpr hlow
      · exact isInt_index i k
      · -- the shifts on the way are smaller than the last
        rw [frameAt_mod] at hlast
        have := j.isLt
        rw [isInt_mask, frameAt_mod]
        omega

theorem alloc_ints_one_page : ∀ v ∈ (allocInts onePage.pmm_bitmap).2, IsInt v := by
  refine (alloc_ints_iff onePage.pmm_bitmap).mpr fun f hfree hbelow => ?_
  have hfirst : IsFirst onePage.pmm_bitmap f := ⟨hfree, hbelow⟩
  rw [hfirst.unique (isFirst_of_freeFrames freeFrames_onePage)]
  decide

/-- A machine whose only free page is `f`. -/
def onlyPage (f : Frame) : Bitmap := bitmap_clear (Vector.replicate _ 0xFFFFFFFF#32) f

theorem onlyPage_scan (f : Frame) : scan (onlyPage f) = some f := by
  rw [scan_eq_some_iff]
  apply isFirst_of_freeFrames
  rw [onlyPage, freeFrames_clear, freeFrames_full]
  simp

/-- The page at 2 GiB has no signed address, and bit 31 no signed mask. -/
theorem alloc_ints_overflow : ¬ (∀ v ∈ (allocInts (onlyPage 0x80000)).2, IsInt v) ∧
    ¬ ∀ v ∈ (allocInts (onlyPage 31)).2, IsInt v := by
  constructor
  · intro hints
    have haddr := isInt_addr.mp (hints _ (allocInts_mem (onlyPage_scan 0x80000)).2.1)
    exact absurd haddr (by decide)
  · intro hints
    have hmask := hints _ (allocInts_mem (onlyPage_scan 31)).1
    exact isInt_mask.mp hmask rfl

end MiniOS.Memory
