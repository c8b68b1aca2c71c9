import MiniOS.Memory.Init

/-!
# The frames that `pmm_initialize` leaves free

`usableFrames` says in terms of the boot information alone which frames are free
after `pmm_initialize`, and `LoopsEnd` says when the call returns at all.
-/

open MiniOS.Lib

namespace MiniOS.Memory

/-! ## Step 1 -/

theorem foldl_set_get {n : Nat} (x : Word) (l : List (Fin n)) (bm : Vector Word n) (k : Fin n)
    (h : k ∈ l ∨ bm.get k = x) : (l.foldl (fun bm i => bm.set i.val x i.isLt) bm).get k = x := by
  induction l generalizing bm with
  | nil => simpa using h
  | cons i l ih =>
    apply ih
    rw [List.mem_cons] at h
    by_cases hk : k ∈ l
    · exact Or.inl hk
    · right
      rw [Vector.get_eq_getElem, Vector.getElem_set]
      split
      · rfl
      · rename_i hne
        rcases h with (rfl | h) | h
        · exact absurd rfl hne
        · exact absurd h hk
        · exact h

theorem freeFrames_mark_all (bm : Bitmap) : freeFrames (mark_all bm) = ∅ := by
  rw [freeFrames_eq]
  apply Set.eq_empty_of_forall_notMem
  intro f hf
  have hword := foldl_set_get 0xFFFFFFFF#32 (List.finRange PMM_BITMAP_SIZE) bm
    ⟨f.val / 32, word_lt f⟩ (Or.inl (List.mem_finRange _))
  rw [mem_clearBits, bitAt_of_allOnes (mark_all bm) f hword] at hf
  exact absurd hf (by simp)

/-! ## Step 2 -/

def MultibootMemoryMap.frames (e : MultibootMemoryMap) : Set Frame :=
  {f | e.type = 1#32 ∧ f ∈ regionFrames e.base_addr_low (e.base_addr_low + e.length_low)}

/-- The region loop of an entry ends. Only available entries have one. -/
def MultibootMemoryMap.Ends (e : MultibootMemoryMap) : Prop :=
  e.type = 1#32 → RegionEnds e.base_addr_low (e.base_addr_low + e.length_low)

def availableFrames (es : List MultibootMemoryMap) : Set Frame := {f | ∃ e ∈ es, f ∈ e.frames}

theorem free_entry_spec {fuel : Nat} {bm bm' : Bitmap} {e : MultibootMemoryMap}
    (h : free_entry fuel bm e = some bm') : freeFrames bm' = freeFrames bm ∪ e.frames := by
  rw [free_entry] at h
  split at h
  · rename_i ht
    rw [clear_region_spec h]
    ext f
    simp [MultibootMemoryMap.frames, ht]
  · rename_i ht
    obtain rfl := Option.some.inj h
    ext f
    simp [MultibootMemoryMap.frames, ht]

theorem free_entry_ends {e : MultibootMemoryMap} (h : e.Ends) (bm : Bitmap) :
    ∃ bm', free_entry (2 ^ 20) bm e = some bm' := by
  rw [free_entry]
  split
  · rename_i ht
    exact clear_region_ends (h ht) bm
  · exact ⟨bm, rfl⟩

theorem free_entry_entryEnds {fuel : Nat} {bm bm' : Bitmap} {e : MultibootMemoryMap}
    (h : free_entry fuel bm e = some bm') : e.Ends := by
  intro ht
  rw [free_entry, if_pos ht] at h
  exact clear_region_regionEnds h

theorem free_entry_mono {n m : Nat} (hnm : n ≤ m) {bm bm' : Bitmap} {e : MultibootMemoryMap}
    (h : free_entry n bm e = some bm') : free_entry m bm e = some bm' := by
  rw [free_entry] at h ⊢
  split
  · rename_i ht
    rw [if_pos ht] at h
    exact forStride_mono hnm h
  · rename_i ht
    rwa [if_neg ht] at h

theorem walkStep_some {fuel : Nat} {mem : Mem} {x y : Word × Bitmap}
    (h : walkStep fuel mem x = some y) :
    free_entry fuel x.2 (MultibootMemoryMap.read mem x.1) = some y.2 ∧
      y.1 = x.1 + (MultibootMemoryMap.read mem x.1).size + 4#32 := by
  simp only [walkStep, Option.map_eq_some_iff] at h
  obtain ⟨bm, hbm, rfl⟩ := h
  exact ⟨hbm, rfl⟩

/-- The walk makes available what the entries that it meets make available. -/
theorem walk_spec {fuel : Nat} {mem : Mem} {stop mmap : Word} {es : List MultibootMemoryMap}
    (hes : Entries mem stop mmap es) {rounds : Nat} {bm : Bitmap} {y : Word × Bitmap}
    (h : whileLoop (walking stop) (walkStep fuel mem) rounds (mmap, bm) = some y) :
    freeFrames y.2 = freeFrames bm ∪ availableFrames es := by
  induction hes generalizing rounds bm with
  | done hstop =>
    rcases whileLoop_some h with ⟨-, rfl⟩ | ⟨_, _, -, hc, -⟩
    · simp [availableFrames]
    · exact absurd (of_decide_eq_true hc) hstop
  | @next mmap es hlt _ ih =>
    rcases whileLoop_some h with ⟨hc, -⟩ | ⟨n, ⟨mmap', bm'⟩, rfl, -, hstep, hrest⟩
    · exact absurd hlt (of_decide_eq_false hc)
    · obtain ⟨hentry, rfl⟩ := walkStep_some hstep
      rw [ih hrest, free_entry_spec hentry]
      ext f
      simp [availableFrames, or_assoc]

theorem walk_entries {fuel : Nat} {mem : Mem} {stop : Word} {rounds : Nat} {x y : Word × Bitmap}
    (h : whileLoop (walking stop) (walkStep fuel mem) rounds x = some y) :
    ∃ es, Entries mem stop x.1 es ∧ ∀ e ∈ es, e.Ends := by
  induction rounds generalizing x with
  | zero =>
    rcases whileLoop_some h with ⟨hc, -⟩ | ⟨_, _, hn, -⟩
    · exact ⟨[], .done (of_decide_eq_false hc), by simp⟩
    · omega
  | succ n ih =>
    rcases whileLoop_some h with ⟨hc, -⟩ | ⟨m, t, hn, hc, hstep, hrest⟩
    · exact ⟨[], .done (of_decide_eq_false hc), by simp⟩
    · obtain rfl : n = m := by omega
      obtain ⟨es, hes, hends⟩ := ih hrest
      obtain ⟨hentry, hnext⟩ := walkStep_some hstep
      rw [hnext] at hes
      refine ⟨_ :: es, .next (of_decide_eq_true hc) hes, ?_⟩
      intro e he
      rcases List.mem_cons.mp he with rfl | he
      · exact free_entry_entryEnds hentry
      · exact hends e he

theorem walk_ends {mem : Mem} {stop mmap : Word} {es : List MultibootMemoryMap}
    (hes : Entries mem stop mmap es) (hends : ∀ e ∈ es, e.Ends) (bm : Bitmap) :
    ∃ y, whileLoop (walking stop) (walkStep (2 ^ 20) mem) es.length (mmap, bm) = some y := by
  induction hes generalizing bm with
  | done hstop => exact ⟨_, whileLoop_stop (decide_eq_false hstop)⟩
  | @next mmap es hlt _ ih =>
    obtain ⟨bm', hbm'⟩ := free_entry_ends (hends _ List.mem_cons_self) bm
    obtain ⟨y, hy⟩ := ih (fun e he => hends e (List.mem_cons_of_mem _ he)) bm'
    have hcond : walking stop (mmap, bm) = true := decide_eq_true hlt
    refine ⟨y, (whileLoop_step hcond ?_).trans hy⟩
    rw [walkStep, hbm']
    rfl

theorem walkStep_mono {n m : Nat} (hnm : n ≤ m) {mem : Mem} (x y : Word × Bitmap)
    (h : walkStep n mem x = some y) : walkStep m mem x = some y := by
  simp only [walkStep, Option.map_eq_some_iff] at h ⊢
  obtain ⟨bm, hbm, rfl⟩ := h
  exact ⟨bm, free_entry_mono hnm hbm, rfl⟩

theorem free_available_spec {mem : Mem} {p : Word} {info : BootInfo} (hi : Carries mem p info)
    {fuel : Nat} {bm bm' : Bitmap}
    (h : free_available fuel mem (MultibootInfo.read mem p) bm = some bm') :
    freeFrames bm' = freeFrames bm ∪ availableFrames info.entries := by
  have hes := hi.entries
  rw [free_available] at h
  split at hes
  · rw [if_pos ‹_›, Option.map_eq_some_iff] at h
    obtain ⟨y, hy, rfl⟩ := h
    exact walk_spec hes hy
  · rw [if_neg ‹_›] at h
    obtain rfl := Option.some.inj h
    simp [hes, availableFrames]

theorem free_available_ends {mem : Mem} {p : Word} {info : BootInfo} (hi : Carries mem p info)
    (hends : ∀ e ∈ info.entries, e.Ends) (bm : Bitmap) :
    ∃ fuel bm', free_available fuel mem (MultibootInfo.read mem p) bm = some bm' := by
  have hes := hi.entries
  simp only [free_available]
  split at hes
  · obtain ⟨y, hy⟩ := walk_ends hes hends bm
    refine ⟨max (2 ^ 20) info.entries.length, y.2, ?_⟩
    rw [if_pos ‹_›, whileLoop_mono (walkStep_mono (le_max_left _ _)) (le_max_right _ _) hy]
    rfl
  · exact ⟨0, bm, if_neg ‹_›⟩

theorem free_available_carries {mem : Mem} {p : Word} {fuel : Nat} {bm bm' : Bitmap}
    (h : free_available fuel mem (MultibootInfo.read mem p) bm = some bm') :
    ∃ info, Carries mem p info ∧ ∀ e ∈ info.entries, e.Ends := by
  rw [free_available] at h
  split at h
  · rename_i hflag
    rw [Option.map_eq_some_iff] at h
    obtain ⟨y, hy, -⟩ := h
    obtain ⟨es, hes, hends⟩ := walk_entries hy
    exact ⟨⟨es, _⟩, ⟨by rw [if_pos hflag]; exact hes, rfl⟩, hends⟩
  · rename_i hflag
    exact ⟨⟨[], _⟩, ⟨by rw [if_neg hflag], rfl⟩, by simp⟩

theorem free_available_mono {n m : Nat} (hnm : n ≤ m) {mem : Mem} {mbinfo : MultibootInfo}
    {bm bm' : Bitmap} (h : free_available n mem mbinfo bm = some bm') :
    free_available m mem mbinfo bm = some bm' := by
  rw [free_available] at h ⊢
  split
  · rw [if_pos ‹_›, Option.map_eq_some_iff] at h
    obtain ⟨y, hy, rfl⟩ := h
    exact Option.map_eq_some_iff.mpr ⟨y, whileLoop_mono (walkStep_mono hnm) hnm hy, rfl⟩
  · rwa [if_neg ‹_›] at h

/-! ## Step 4 -/

def moduleFrames (mods : List MultibootMod) : Set Frame :=
  {f | ∃ m ∈ mods, f ∈ rangeFrames m.mod_start m.mod_end}

/-- The marking loops of step 4, over the modules in order. -/
def markAll (fuel : Nat) (mods : List MultibootMod) (bm : Bitmap) : Option Bitmap :=
  mods.foldlM (fun bm m => mark_range fuel bm m.mod_start m.mod_end) bm

theorem markAll_spec {fuel : Nat} {mods : List MultibootMod} {bm bm' : Bitmap}
    (h : markAll fuel mods bm = some bm') : freeFrames bm' = freeFrames bm \ moduleFrames mods := by
  induction mods generalizing bm with
  | nil =>
    obtain rfl := Option.some.inj h
    simp [moduleFrames]
  | cons m mods ih =>
    simp only [markAll, List.foldlM_cons, Option.bind_eq_bind, Option.bind_eq_some_iff] at h
    obtain ⟨bm₁, h₁, h⟩ := h
    rw [ih h, mark_range_spec h₁]
    ext f
    simp [moduleFrames, and_assoc]

theorem markAll_rangeEnds {fuel : Nat} {mods : List MultibootMod} {bm bm' : Bitmap}
    (h : markAll fuel mods bm = some bm') : ∀ m ∈ mods, RangeEnds m.mod_start m.mod_end := by
  induction mods generalizing bm with
  | nil => simp
  | cons m mods ih =>
    simp only [markAll, List.foldlM_cons, Option.bind_eq_bind, Option.bind_eq_some_iff] at h
    obtain ⟨bm₁, h₁, h⟩ := h
    rintro m' hm'
    rcases List.mem_cons.mp hm' with rfl | hm'
    · exact mark_range_rangeEnds h₁
    · exact ih h m' hm'

theorem markAll_ends {mods : List MultibootMod} (h : ∀ m ∈ mods, RangeEnds m.mod_start m.mod_end)
    (bm : Bitmap) : ∃ bm', markAll (2 ^ 20) mods bm = some bm' := by
  induction mods generalizing bm with
  | nil => exact ⟨bm, rfl⟩
  | cons m mods ih =>
    obtain ⟨bm₁, h₁⟩ := mark_range_ends (h m List.mem_cons_self) bm
    obtain ⟨bm', h'⟩ := ih (fun m hm => h m (List.mem_cons_of_mem _ hm)) bm₁
    refine ⟨bm', ?_⟩
    rw [markAll, List.foldlM_cons, h₁]
    exact h'

theorem markAll_mono {n m : Nat} (hnm : n ≤ m) {mods : List MultibootMod} {bm bm' : Bitmap}
    (h : markAll n mods bm = some bm') : markAll m mods bm = some bm' := by
  induction mods generalizing bm with
  | nil => exact h
  | cons a mods ih =>
    simp only [markAll, List.foldlM_cons, Option.bind_eq_bind, Option.bind_eq_some_iff] at h ⊢
    obtain ⟨bm₁, h₁, h⟩ := h
    exact ⟨bm₁, forStride_mono hnm h₁, ih h⟩

theorem mark_modules_eq (fuel : Nat) (mem : Mem) (mbinfo : MultibootInfo) (bm : Bitmap) :
    mark_modules fuel mem mbinfo bm = markAll fuel (mbinfo.mods mem) bm := by
  rw [mark_modules, MultibootInfo.mods]
  split
  · rw [markAll, List.foldlM_map]
    split
    · rfl
    · rename_i hcount
      have hzero : mbinfo.mods_count.toNat = 0 := by simpa [BitVec.lt_def] using hcount
      rw [hzero]
      rfl
  · rfl

/-! ## The whole call -/

/-- The frames that step 3, step 4 and the last line keep. -/
def reservedFrames (mods : List MultibootMod) (kernel_start kernel_end : Word) : Set Frame :=
  rangeFrames (kernel_start - KERNEL_VIRTUAL_BASE) (kernel_end - KERNEL_VIRTUAL_BASE) ∪
    moduleFrames mods ∪ {0}

def usableFrames (info : BootInfo) (kernel_start kernel_end : Word) : Set Frame :=
  availableFrames info.entries \ reservedFrames info.mods kernel_start kernel_end

structure LoopsEnd (info : BootInfo) (kernel_start kernel_end : Word) : Prop where
  entries : ∀ e ∈ info.entries, e.Ends
  kernel : RangeEnds (kernel_start - KERNEL_VIRTUAL_BASE) (kernel_end - KERNEL_VIRTUAL_BASE)
  mods : ∀ m ∈ info.mods, RangeEnds m.mod_start m.mod_end

theorem pmm_initialize_some {fuel : Nat} {pmm pmm' : Pmm} {mem : Mem} {p ks ke : Word}
    (h : pmm_initialize fuel pmm mem p ks ke = some pmm') :
    ∃ bm₂ bm₃ bm₄, free_available fuel mem (MultibootInfo.read mem p) (mark_all pmm.pmm_bitmap) = some bm₂ ∧
      mark_range fuel bm₂ (ks - KERNEL_VIRTUAL_BASE) (ke - KERNEL_VIRTUAL_BASE) = some bm₃ ∧
      mark_modules fuel mem (MultibootInfo.read mem p) bm₃ = some bm₄ ∧
      pmm'.pmm_bitmap = bitmap_set bm₄ 0 := by
  unfold pmm_initialize at h
  simp only [Option.bind_eq_bind, Option.bind_eq_some_iff] at h
  obtain ⟨bm₂, h₂, bm₃, h₃, bm₄, h₄, h⟩ := h
  refine ⟨bm₂, bm₃, bm₄, h₂, h₃, h₄, ?_⟩
  rw [← Option.some.inj h]

theorem pmm_initialize_spec {fuel : Nat} {pmm pmm' : Pmm} {mem : Mem} {p ks ke : Word}
    {info : BootInfo} (hi : Carries mem p info)
    (h : pmm_initialize fuel pmm mem p ks ke = some pmm') :
    freeFrames pmm'.pmm_bitmap = usableFrames info ks ke := by
  obtain ⟨bm₂, bm₃, bm₄, h₂, h₃, h₄, hbm⟩ := pmm_initialize_some h
  rw [mark_modules_eq, ← hi.mods] at h₄
  rw [hbm, freeFrames_set, markAll_spec h₄, mark_range_spec h₃, free_available_spec hi h₂,
    freeFrames_mark_all, Set.empty_union, sdiff_sdiff, sdiff_sdiff, usableFrames, reservedFrames]
  simp only [Set.sup_eq_union, Set.union_assoc]

theorem pmm_initialize_carries {fuel : Nat} {pmm pmm' : Pmm} {mem : Mem} {p ks ke : Word}
    (h : pmm_initialize fuel pmm mem p ks ke = some pmm') :
    ∃ info, Carries mem p info ∧ LoopsEnd info ks ke := by
  obtain ⟨bm₂, bm₃, bm₄, h₂, h₃, h₄, -⟩ := pmm_initialize_some h
  obtain ⟨info, hi, hends⟩ := free_available_carries h₂
  rw [mark_modules_eq, ← hi.mods] at h₄
  exact ⟨info, hi, hends, mark_range_rangeEnds h₃, markAll_rangeEnds h₄⟩

theorem pmm_initialize_loopsEnd {fuel : Nat} {pmm pmm' : Pmm} {mem : Mem} {p ks ke : Word}
    {info : BootInfo} (hi : Carries mem p info)
    (h : pmm_initialize fuel pmm mem p ks ke = some pmm') : LoopsEnd info ks ke := by
  obtain ⟨info', hi', hends⟩ := pmm_initialize_carries h
  rwa [hi.unique hi']

theorem pmm_initialize_returns {mem : Mem} {p ks ke : Word} {info : BootInfo}
    (hi : Carries mem p info) (hends : LoopsEnd info ks ke) (pmm : Pmm) :
    ∃ fuel pmm', pmm_initialize fuel pmm mem p ks ke = some pmm' := by
  obtain ⟨fuel, bm₂, h₂⟩ := free_available_ends hi hends.entries (mark_all pmm.pmm_bitmap)
  obtain ⟨bm₃, h₃⟩ := mark_range_ends hends.kernel bm₂
  obtain ⟨bm₄, h₄⟩ := markAll_ends hends.mods bm₃
  have hfuel := le_max_left fuel (2 ^ 20)
  have hpages := le_max_right fuel (2 ^ 20)
  replace h₂ := free_available_mono hfuel h₂
  replace h₃ : mark_range _ bm₂ _ _ = some bm₃ := forStride_mono hpages h₃
  replace h₄ := markAll_mono hpages h₄
  rw [hi.mods, ← mark_modules_eq] at h₄
  refine ⟨max fuel (2 ^ 20), ?_⟩
  unfold pmm_initialize
  simp only [h₂, h₃, h₄, Option.bind_eq_bind, Option.bind_some]
  exact ⟨_, rfl⟩

end MiniOS.Memory
