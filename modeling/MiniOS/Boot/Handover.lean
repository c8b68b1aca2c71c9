import MiniOS.Boot.Flat

/-!
# The loader hands over to `kmain`

Whatever the processor keeps or drops on the way, the machine is the flat one up to the
accessed and dirty bits of two entries.
-/

open MiniOS.Lib

namespace MiniOS.Boot

variable {img : Image} {s₀ s t : Machine} {k : Nat}

/-! ## The invariant -/

/-- Between the store that unmaps page 0 and the `invlpg`. -/
def stale (k : Nat) : Set Translation :=
  { t | k = 15 ∧ t.large = true ∧ (t.page.extractLsb' 10 10).toNat = 0 }

structure Inv (img : Image) (s₀ : Machine) (k : Nat) (s : Machine) : Prop where
  agree : Agree s (img.flat s₀ k)
  exact : k < 12 → s.mmu.mem = (img.flat s₀ k).mmu.mem
  flushed : 6 ≤ k → k < 12 → s.mmu.tlb = ∅
  tables : 12 ≤ k → Tables img.frame (k < 15) s.mmu
  current : 12 ≤ k → s.mmu.Current (stale k)
  mem : ∀ x, ¬InDirectory img x → s.mmu.mem x = (img.flat s₀ k).mmu.mem x

theorem Inv.off (h : Inv img s₀ k s) (hs : s₀.mmu.on = false) (hk : k < 12) : s.mmu.on = false := by
  unfold Mmu.on
  rw [h.agree.control.cr0, (img.flat_control (by omega)).cr0, if_pos hk]
  exact hs

/-- What the loader accesses has one translation. -/
theorem Inv.maps (h : Inv img s₀ k s) (hs : s₀.mmu.on = false) {a n : Nat} (hnear : Near k a n) {j : Nat}
    (hj : j < n) (pa : Word) :
    s.mmu.Maps (word a + word j) pa ↔ pa = physical (word a) + word j := by
  rw [← hnear.physical hj]
  have hindex := hnear.index hj
  by_cases hk : k < 12
  · rw [Mmu.maps_off (h.off hs hk), hnear.physical hj]
    have hlow : a + n ≤ 0x400000 := by
      unfold Near at hnear
      omega
    rw [physical, if_pos]
    rw [toNat_word (by omega)]
    unfold KERNEL_VIRTUAL_BASE
    omega
  · rw [physical_mapped hindex, (h.tables (by omega)).maps (h.current (by omega))]
    · exact and_iff_right hindex
    · rintro t ⟨rfl, -, ht⟩ hpage
      rw [hpage, page_index] at ht
      rcases hindex with hindex | ⟨hindex, -⟩
      · rw [ht] at hindex
        cases hindex
      · cases hindex

theorem Inv.move (h : Inv img s₀ k s) (hs : s₀.mmu.on = false) {u : Mmu} (hm : s.mmu.Move u) :
    Inv img s₀ k { s with mmu := u } := by
  obtain ⟨⟨hreg, heip, hcontrol⟩, hexact, hflushed, htables, hcurrent, hmem⟩ := id h
  refine ⟨⟨hreg, heip, ?_⟩, fun hk => ?_, fun h6 hk => ?_, fun hk => (htables hk).move hm,
    fun hk => hm.current (hcurrent hk), fun x hx => ?_⟩
  · have hcr0 : u.cr0 = s.mmu.cr0 := by cases hm <;> rfl
    exact ⟨hcr0.trans hcontrol.cr0, hm.alike.cr3.trans hcontrol.cr3, hm.alike.cr4.trans hcontrol.cr4⟩
  · have hoff := h.off hs hk
    cases hm with
    | fill hon => rw [hoff] at hon; cases hon
    | evict => exact hexact hk
    | mark hon => rw [hoff] at hon; cases hon
  · have hoff := h.off hs hk
    cases hm with
    | fill hon => rw [hoff] at hon; cases hon
    | evict => exact Set.subset_eq_empty Set.sdiff_subset (hflushed h6 hk)
    | mark hon => rw [hoff] at hon; cases hon
  · rw [← hmem x hx]
    by_cases hk : k < 12
    · have hoff := h.off hs hk
      cases hm with
      | fill hon => rfl
      | evict => rfl
      | mark hon => rw [hoff] at hon; cases hon
    · refine hm.mem fun page a ha => ?_
      obtain ⟨i, hi, rfl⟩ := (htables (by omega)).entries ha
      refine Nat.le_of_not_lt fun hlt => hx ⟨i, ?_, hlt⟩
      exact hi.imp_right fun h => ⟨rfl, h.2⟩

/-! ## One instruction -/

theorem Inv.fetches (h : Inv img s₀ k s) (hfit : img.Fits) (hs : s₀.eip = img.loadAt 0)
    (hoff : s₀.mmu.on = false) (hk : k < 20) {j : Nat} (hj : j < img.len k) (pa : Word) :
    s.mmu.Maps (s.eip + word j) pa ↔ pa = img.loadAt k + word j := by
  obtain ⟨a, heip, hnear, hload⟩ := img.fetch_near hfit hs hk
  rw [h.agree.eip, heip, ← hload]
  exact h.maps hoff hnear hj pa

theorem Inv.stored (h : Inv img s₀ k s) (hfit : img.Fits) (hoff : s₀.mmu.on = false) (hk : k < 20)
    {i : Instr} (hi : img.code[k]? = some i) (m : Bytes) (next : Word) :
    Stored s.mmu m (i.stored { s with eip := next }) ↔
      m = flatStore s.mmu.mem (i.stored { img.flat s₀ k with eip := next }) := by
  have hagree : Agree { s with eip := next } { img.flat s₀ k with eip := next } :=
    ⟨h.agree.reg, rfl, ⟨h.agree.control.cr0, h.agree.control.cr3, h.agree.control.cr4⟩⟩
  rw [hagree.stored]
  cases hstored : i.stored { img.flat s₀ k with eip := next } with
  | none => exact Iff.rfl
  | some w =>
    obtain ⟨a, v⟩ := w
    obtain ⟨n, rfl, hnear⟩ := img.stored_near hfit hk hi hstored
    show s.mmu.Stores _ _ _ _ ↔ m = poke _ _ _
    rw [← storeBytes_wordBytes]
    exact Mmu.stores_iff fun j hj => h.maps hoff hnear hj

/-- The instruction that is executed is the next one, and its store is that of the flat machine. -/
theorem Inv.exec_inv (h : Inv img s₀ k s) (hfit : img.Fits) (hs : s₀.eip = img.loadAt 0)
    (hoff : s₀.mmu.on = false) (hk : k < 20) (hstep : Step img s .exec t) :
    ∃ i, img.code[k]? = some i ∧ ∃ m, m = flatStore s.mmu.mem
        (i.stored { img.flat s₀ k with eip := (img.flat s₀ k).eip + word (img.len k) }) ∧
      t = i.exec { s with eip := s.eip + word (img.len k), mmu := { s.mmu with mem := m } } := by
  cases hstep with
  | @exec k' i m hi hfetch hm =>
    have hk' : k' < 21 := (List.getElem?_eq_some_iff.mp hi).1
    have hfirst := hfetch 0 (img.len_pos k')
    rw [h.fetches hfit hs hoff hk (img.len_pos k), add_left_inj] at hfirst
    have hcode := hfit.low.code k (by omega)
    have hcode' := hfit.low.code k' hk'
    have hlen := img.len_pos k
    have hlen' := img.len_pos k'
    obtain rfl := img.codeAt_strictMono.injective
      (loadAt_inj (by omega) (by omega) (by omega) (by omega) hfirst)
    refine ⟨i, hi, m, ?_, rfl⟩
    rw [h.stored hfit hoff hk hi, h.agree.eip] at hm
    exact hm

/-- The tables after the instruction: both entries once paging is on, one after the store of 0. -/
theorem Inv.entries (h : Inv img s₀ k s) (hfit : img.Fits)
    (hzero : ∀ i : BitVec 10, peek s₀.mmu.mem (entryAt img.frame i) = 0#32) (hk : k < 20) (hk' : 11 ≤ k)
    {i : Instr} (hi : img.code[k]? = some i) (next : Word) (e : BitVec 10) :
    SameEntry (if Mapped (decide (k + 1 < 15)) e.toNat then PDE_FLAGS else 0#32)
      (peek (flatStore s.mmu.mem (i.stored { img.flat s₀ k with eip := next })) (entryAt img.frame e)) := by
  have hold : 12 ≤ k → SameEntry (if Mapped (decide (k < 15)) e.toNat then PDE_FLAGS else 0#32)
      (peek s.mmu.mem (entryAt img.frame e)) := fun h12 => (h.tables h12).entry e
  cases hstored : i.stored { img.flat s₀ k with eip := next } with
  | none =>
    show SameEntry _ (peek s.mmu.mem _)
    rcases Nat.eq_or_lt_of_le hk' with rfl | h12
    · have hkeep : (img.flat s₀ 12).mmu.mem = (img.flat s₀ 11).mmu.mem :=
        img.flat_mem_keep (by decide) (by decide) (by omega)
      rw [h.exact (by decide), ← hkeep, img.entries_twelve hfit hzero]
      exact .refl _
    · have h14 : k ≠ 14 := by
        rintro rfl
        obtain rfl := Option.some.inj hi
        cases hstored
      have hsame : decide (k + 1 < 15) = decide (k < 15) := decide_eq_decide.mpr (by omega)
      rw [hsame]
      exact hold h12
  | some w =>
    obtain ⟨a, v⟩ := w
    show SameEntry _ (peek (poke _ (physical a) v) _)
    rcases img.code_stored hk hi hstored with
      ⟨rfl, -⟩ | ⟨rfl, -⟩ | ⟨rfl, rfl, rfl⟩ | ⟨hstack, rfl⟩
    · omega
    · omega
    · rw [img.physical_directory hfit, peek_poke_entryAt]
      by_cases heq : entryAt img.frame e = entryAt img.frame 0
      · rw [if_pos heq]
        obtain ⟨-, rfl⟩ := entryAt_inj heq
        exact .refl 0#32
      · rw [if_neg heq]
        have hmapped : Mapped (decide (14 < 15)) e.toNat ↔ Mapped (decide (14 + 1 < 15)) e.toNat := by
          have : e.toNat ≠ 0 := fun h0 => heq (congrArg _ (BitVec.eq_of_toNat_eq h0))
          simp [Mapped, this]
        have hentry := hold (by decide)
        rwa [if_congr hmapped rfl rfl] at hentry
    · obtain ⟨h18, h19⟩ := img.flat_esp s₀
      have hsame : decide (k + 1 < 15) = decide (k < 15) := decide_eq_decide.mpr (by omega)
      rw [hsame]
      rcases hstack with rfl | rfl
      · show SameEntry _ (peek (poke _ (physical ((img.flat s₀ 18).esp - 4#32)) v) _)
        rw [h18, img.peek_poke_stack hfit _ (by decide)]
        exact hold (by decide)
      · show SameEntry _ (peek (poke _ (physical ((img.flat s₀ 19).esp - 4#32)) v) _)
        rw [h19, img.peek_poke_stack hfit _ (by decide)]
        exact hold (by decide)

theorem Inv.agree_exec (h : Inv img s₀ k s) {i : Instr} (hi : img.code[k]? = some i) (m : Bytes) :
    Agree (i.exec { s with eip := s.eip + word (img.len k), mmu := { s.mmu with mem := m } })
      (img.flat s₀ (k + 1)) := by
  rw [img.code_flat hi]
  obtain ⟨hreg, heip, hcr0, hcr3, hcr4⟩ := h.agree
  refine Agree.exec ?_ i
  exact ⟨hreg, congrArg (· + _) heip, ⟨hcr0, hcr3, hcr4⟩⟩

theorem Inv.flushed_exec (h : Inv img s₀ k s) {i : Instr} (hi : img.code[k]? = some i) (hk : 5 ≤ k)
    (hk' : k < 12) (m : Bytes) :
    (i.exec { s with eip := s.eip + word (img.len k), mmu := { s.mmu with mem := m } }).mmu.tlb = ∅ := by
  rcases Nat.eq_or_lt_of_le hk with rfl | h6
  · obtain rfl := Option.some.inj hi
    rfl
  · refine Set.subset_eq_empty (Instr.exec_tlb _ i) ?_
    exact h.flushed h6 hk'

/-- With the tables that are in use after `k` instructions, a cached translation is out of date between
the store and the `invlpg` only. -/
theorem Inv.current_exec (h : Inv img s₀ k s) {i : Instr} (hi : img.code[k]? = some i) (hk : 11 ≤ k)
    (hk' : k < 20) (m : Bytes) {u : Mmu}
    (hu : u = (i.exec { s with eip := s.eip + word (img.len k), mmu := { s.mmu with mem := m } }).mmu)
    (htables : Tables img.frame (k + 1 < 15) u) : u.Current (stale (k + 1)) := by
  intro t ht
  rcases Nat.eq_or_lt_of_le hk with rfl | h12
  · rw [hu, h.flushed_exec hi (by decide) (by decide) m] at ht
    exact absurd ht (Set.notMem_empty t)
  · have hkept : t ∈ s.mmu.tlb := by
      rw [hu] at ht
      exact Instr.exec_tlb { s with eip := s.eip + word (img.len k), mmu := { s.mmu with mem := m } } i ht
    rw [htables.walk]
    rcases h.current h12 t hkept with hwalk | ⟨rfl, hlarge, hindex⟩
    · rw [(h.tables h12).walk] at hwalk
      by_cases hmapped : Mapped (decide (k < 15)) (t.page.extractLsb' 10 10).toNat
      · rw [if_pos hmapped] at hwalk
        by_cases hstill : Mapped (decide (k + 1 < 15)) (t.page.extractLsb' 10 10).toNat
        · rw [if_pos hstill]
          exact Or.inl hwalk
        · -- the instruction unmaps page 0
          have hlarge := congrArg Translation.large (Option.some.inj hwalk)
          unfold Mapped at hmapped hstill
          simp only [decide_eq_true_eq] at hmapped hstill
          exact Or.inr ⟨by omega, hlarge.symm, by omega⟩
      · rw [if_neg hmapped] at hwalk
        cases hwalk
    · -- `invlpg` drops what is out of date
      obtain rfl := Option.some.inj hi
      rw [hu] at ht
      exact absurd (BitVec.eq_of_toNat_eq hindex) (ht.2.2 hlarge)

/-- GRUB enters the loader at its physical address, in protected mode and without paging. The image is
in memory, so the directory is zero. -/
structure Image.Entered (img : Image) (s : Machine) : Prop where
  eip : s.eip = img.loadAt 0
  off : s.mmu.on = false
  pae : s.mmu.cr4.getLsbD 5 = false
  zeroed : ∀ i : BitVec 10, peek s.mmu.mem (entryAt img.frame i) = 0#32

theorem Inv.tables_exec (hs : img.Entered s₀) (hagree : Agree t (img.flat s₀ (k + 1))) (hk : 11 ≤ k)
    (hk' : k < 20)
    (hentry : ∀ e : BitVec 10, SameEntry (if Mapped (decide (k + 1 < 15)) e.toNat then PDE_FLAGS else 0#32)
      (peek t.mmu.mem (entryAt img.frame e))) : Tables img.frame (k + 1 < 15) t.mmu := by
  have hcontrol : Control img s₀ (k + 1) (img.flat s₀ (k + 1)).mmu := img.flat_control (by omega)
  obtain ⟨hcr0, hcr3, hcr4⟩ := hcontrol
  rw [if_neg (by omega)] at hcr0 hcr3 hcr4
  have hpae := hs.pae
  refine ⟨?_, ?_, ?_, ?_, hentry⟩
  · rw [Mmu.on, hagree.control.cr0, hcr0, BitVec.getLsbD_or]
    exact Bool.or_true _
  · rw [hagree.control.cr4, hcr4, BitVec.getLsbD_or]
    exact Bool.or_true _
  · rw [hagree.control.cr4, hcr4, BitVec.getLsbD_or, hpae]
    rfl
  · rw [Mmu.directory, hagree.control.cr3, hcr3]

theorem Inv.exec (h : Inv img s₀ k s) (hfit : img.Fits) (hs : img.Entered s₀) (hk : k < 20)
    (hstep : Step img s .exec t) : Inv img s₀ (k + 1) t := by
  obtain ⟨i, hi, m, hm, rfl⟩ := h.exec_inv hfit hs.eip hs.off hk hstep
  have hagree := h.agree_exec hi m
  have hmem : (i.exec { s with eip := s.eip + word (img.len k), mmu := { s.mmu with mem := m } }).mmu.mem =
      m := Instr.exec_mem _ i
  have hflat : (img.flat s₀ (k + 1)).mmu.mem = flatStore (img.flat s₀ k).mmu.mem
      (i.stored { img.flat s₀ k with eip := (img.flat s₀ k).eip + word (img.len k) }) := by
    rw [img.code_flat hi, Instr.flat_mem]
  have htables : 12 ≤ k + 1 → Tables img.frame (k + 1 < 15)
      (i.exec { s with eip := s.eip + word (img.len k), mmu := { s.mmu with mem := m } }).mmu := by
    intro hk'
    refine Inv.tables_exec hs hagree (by omega) hk fun e => ?_
    rw [hmem, hm]
    exact h.entries hfit hs.zeroed hk (by omega) hi _ e
  refine ⟨hagree, fun hk' => ?_, fun h6 hk' => h.flushed_exec hi (by omega) (by omega) m, htables,
    fun hk' => h.current_exec hi (by omega) hk m rfl (htables hk'), fun x hx => ?_⟩
  · rw [hmem, hm, hflat, h.exact (by omega)]
  · rw [hmem, hm, hflat]
    exact flatStore_congr (h.mem x hx) _

/-! ## Every run of the loader -/

theorem Inv.start : Inv img s₀ 0 s₀ := by
  refine ⟨⟨rfl, rfl, ⟨rfl, rfl, rfl⟩⟩, fun _ => rfl, fun h6 => ?_, fun h12 => ?_, fun h12 => ?_,
    fun _ _ => rfl⟩
  all_goals omega

theorem Inv.progress (h : Inv img s₀ k s) (hfit : img.Fits) (hs : img.Entered s₀) (hk : k < 20) :
    ∃ t, Step img s .exec t := by
  have hlength : k < img.code.length := lt_of_lt_of_le hk (Nat.le_succ 20)
  have hi := List.getElem?_eq_getElem hlength
  exact ⟨_, .exec hi (fun j hj => (h.fetches hfit hs.eip hs.off hk hj _).mpr rfl)
    ((h.stored hfit hs.off hk hi _ _).mpr rfl)⟩

theorem Inv.handed_over (h : Inv img s₀ 20 s) (hfit : img.Fits) (hoff : s₀.mmu.on = false) :
    ¬Step img s .exec t := by
  intro hstep
  cases hstep with
  | @exec k' i m hi hfetch =>
    have hk' : k' < 21 := (List.getElem?_eq_some_iff.mp hi).1
    obtain ⟨hcode, hkmain, -, -⟩ := hfit.low
    have hlen := img.len_pos k'
    have hcode' := hcode k' hk'
    have hnear : Near 20 img.kmain 1 := Or.inr ⟨by decide, by omega, by omega⟩
    have hfirst := hfetch 0 hlen
    rw [h.agree.eip, img.flat_kmain, h.maps hoff hnear (by decide), add_left_inj,
      physical_word (by omega) (by omega)] at hfirst
    exact img.codeAt_ne_kmain hk' (loadAt_inj (by omega) (by omega) (by omega) (by omega) hfirst)

theorem run_inv (hfit : img.Fits) (hs : img.Entered s₀) {ls : List Label} (h : Run (Step img) s₀ ls s) :
    ls.count .exec ≤ 20 ∧ Inv img s₀ (ls.count .exec) s := by
  refine h.inv (fun ls s => ls.count .exec ≤ 20 ∧ Inv img s₀ (ls.count .exec) s)
    ⟨Nat.zero_le _, .start⟩ ?_
  rintro ls s l t ⟨hle, hinv⟩ hstep
  rw [List.count_append]
  cases l with
  | move =>
    cases hstep with
    | move hm => exact ⟨hle, hinv.move hs.off hm⟩
  | exec =>
    have hlt : ls.count .exec < 20 := by
      refine Nat.lt_of_le_of_ne hle fun heq => ?_
      rw [heq] at hinv
      exact hinv.handed_over hfit hs.off hstep
    exact ⟨hlt, hinv.exec hfit hs hlt hstep⟩

/-- The processor gets there: there is a run of any number of instructions up to the call of `kmain`. -/
theorem run_exists (hfit : img.Fits) (hs : img.Entered s₀) {n : Nat} (hn : n ≤ 20) :
    ∃ s, Run (Step img) s₀ (List.replicate n .exec) s := by
  induction n with
  | zero => exact ⟨s₀, .nil⟩
  | succ n ih =>
    obtain ⟨s, hrun⟩ := ih (by omega)
    obtain ⟨-, hinv⟩ := run_inv hfit hs hrun
    rw [List.count_replicate_self] at hinv
    obtain ⟨t, ht⟩ := hinv.progress hfit hs (by omega)
    rw [List.replicate_succ']
    exact ⟨t, hrun.snoc ht⟩

/-- **The loader never faults and never strays.** Whatever the processor keeps, drops or marks on the way,
the machine does what a flat memory would make it do. Every byte of the next instruction and of what it
stores has one translation, the intended one, and the instruction can always be executed. -/
theorem loader_refines_flat (hfit : img.Fits) (hs : img.Entered s₀) {ls : List Label}
    (h : Run (Step img) s₀ ls s) :
    ∃ k ≤ 20, ls.count .exec = k ∧ s.reg = (img.flat s₀ k).reg ∧ s.eip = (img.flat s₀ k).eip ∧
      (∀ x, ¬InDirectory img x → s.mmu.mem x = (img.flat s₀ k).mmu.mem x) ∧
      ∀ i, k < 20 → img.code[k]? = some i →
        (∀ j < img.len k, ∀ pa, s.mmu.Maps (s.eip + word j) pa ↔ pa = img.loadAt k + word j) ∧
        (∀ a v, i.stored { s with eip := s.eip + word (img.len k) } = some (a, v) →
          ∀ j < 4, ∀ pa, s.mmu.Maps (a + word j) pa ↔ pa = physical a + word j) ∧
        ∃ t, Step img s .exec t := by
  obtain ⟨hle, hinv⟩ := run_inv hfit hs h
  refine ⟨_, hle, rfl, hinv.agree.reg, hinv.agree.eip, hinv.mem,
    fun i hk hi => ⟨fun j hj pa => ?_, ?_, ?_⟩⟩
  · exact hinv.fetches hfit hs.eip hs.off hk hj pa
  · intro a v hstored j hj pa
    have hagree : Agree { s with eip := s.eip + word (img.len (ls.count .exec)) }
        { img.flat s₀ (ls.count .exec) with eip := s.eip + word (img.len (ls.count .exec)) } :=
      ⟨hinv.agree.reg, rfl,
        ⟨hinv.agree.control.cr0, hinv.agree.control.cr3, hinv.agree.control.cr4⟩⟩
    rw [hagree.stored] at hstored
    obtain ⟨n, rfl, hnear⟩ := img.stored_near hfit hk hi hstored
    exact hinv.maps hs.off hnear hj pa
  · exact hinv.progress hfit hs hk

def smallImage : Image where
  text := 0x400
  rodata := 16
  data := 4096
  bss := 16384
  len := fun _ => 5
  loaderOffset := 12
  kmainOffset := 0x200
  directoryOffset := 0
  stackOffset := 0
  len_pos _ := by decide
  loader_fits := by decide
  kmain_fits := by decide
  kmain_apart := by decide
  directory_aligned := by decide
  directory_fits := by decide
  stack_aligned := by decide
  stack_fits := by decide

def grubEntry : Machine where
  reg := Function.update (fun _ => 0#32) .ebx 0x10000#32
  eip := smallImage.loadAt 0
  mmu := ⟨fun _ => 0#8, 0x11#32, 0#32, 0#32, ∅⟩

theorem smallImage_fits : smallImage.Fits := by
  unfold Image.Fits
  decide

theorem grubEntry_entered : smallImage.Entered grubEntry := by
  refine ⟨rfl, rfl, rfl, fun i => ?_⟩
  simp [peek, grubEntry]

/-- At the `push`, with paging on, the lower half gone and the pointer moved up. -/
theorem loader_refines_flat_small :
    ∃ ls s t, Run (Step smallImage) grubEntry ls s ∧ ls.count .exec = 18 ∧
      s.reg .ecx = 0xC0010000#32 ∧ (∀ pa, s.mmu.Maps s.eip pa ↔ pa = smallImage.loadAt 18) ∧
      (∀ pa, s.mmu.Maps (word (smallImage.kernel_stack + (KERNEL_STACK_SIZE - 4))) pa ↔
        pa = physical (word (smallImage.kernel_stack + (KERNEL_STACK_SIZE - 4)))) ∧
      Step smallImage s .exec t := by
  obtain ⟨s, hrun⟩ := run_exists smallImage_fits grubEntry_entered (n := 18) (by decide)
  obtain ⟨k, -, hcount, hreg, -, -, hnext⟩ := loader_refines_flat smallImage_fits grubEntry_entered hrun
  rw [List.count_replicate_self] at hcount
  subst hcount
  obtain ⟨hfetch, hstore, t, ht⟩ := hnext _ (by decide) rfl
  refine ⟨_, s, t, hrun, List.count_replicate_self .., ?_, ?_, ?_, ht⟩
  · rw [hreg, Image.flat_ecx]
    rfl
  · simpa [word] using hfetch 0 (by decide)
  · have hesp : s.esp - 4#32 = word (smallImage.kernel_stack + (KERNEL_STACK_SIZE - 4)) := by
      rw [← (smallImage.flat_esp grubEntry).1]
      exact congrArg (· - 4#32) (congrFun hreg .esp)
    rw [← hesp]
    simpa [word] using hstore _ _ rfl 0 (by decide)

/-! ## What `kmain` finds -/

theorem Inv.kernel (h : Inv img s₀ 20 s) : Tables img.frame false s.mmu ∧ s.mmu.Current ∅ :=
  ⟨h.tables (by decide),
    fun t ht => (h.current (by decide) t ht).imp_right fun hold => absurd hold.1 (by decide)⟩

/-- What the loader pushed, in the memory of the machine. -/
theorem Inv.pushed (h : Inv img s₀ 20 s) (hfit : img.Fits) :
    peek s.mmu.mem (physical (word (img.kernel_stack + (KERNEL_STACK_SIZE - 4)))) =
        s₀.reg .ebx + word KERNEL_VIRTUAL_BASE ∧
      peek s.mmu.mem (physical (word (img.kernel_stack + (KERNEL_STACK_SIZE - 8)))) =
        word (img.codeAt 20) := by
  have hsame : ∀ d, d + 4 ≤ KERNEL_STACK_SIZE →
      peek s.mmu.mem (physical (word (img.kernel_stack + d))) =
        peek (img.flat s₀ 20).mmu.mem (physical (word (img.kernel_stack + d))) := by
    intro d hd
    exact peek_congr fun j hj => h.mem _ (img.stack_apart hfit hd hj)
  rw [hsame _ (by decide), hsame _ (by decide), img.flat_mem_kmain hfit]
  refine ⟨?_, peek_poke _ _ _⟩
  rw [img.stack_words hfit, peek_congr (m := poke _ _ _) fun j hj => poke_other ?_, peek_poke]
  rw [add_assoc, add_sub_cancel_left, BitVec.toNat_add, BitVec.toNat_ofNat, BitVec.toNat_ofNat]
  omega

/-- Apart from its directory and from two words of the stack, the loader changes nothing. -/
theorem Inv.untouched (h : Inv img s₀ 20 s) (hfit : img.Fits) {x : Word} (hx : ¬InDirectory img x)
    (hstack : 8 ≤ (x - physical (word (img.kernel_stack + (KERNEL_STACK_SIZE - 8)))).toNat) :
    s.mmu.mem x = s₀.mmu.mem x := by
  have hentry : ∀ i : BitVec 10, Mapped true i.toNat → 4 ≤ (x - entryAt img.frame i).toNat :=
    fun i hi => Nat.le_of_not_lt fun hlt => hx ⟨i, hi, hlt⟩
  have h0 := hentry 0 (by decide)
  have h768 := hentry 768 (by decide)
  rw [h.mem x hx, img.flat_mem_kmain hfit, img.flat_mem_twelve hfit, poke_other (by omega), poke_other ?_,
    poke_other h0, poke_other h768, poke_other h0]
  rw [img.stack_words hfit]
  bv_omega

/-- **What `kmain` finds.** After 20 instructions the processor is at `kmain`, and whatever it does by
itself from then on, the kernel's 4 MiB from 0xC0000000 on are the memory from 0 on, and no other
address has a translation: the one of page 0 is gone for good. On the stack are the way back and the
address of the Multiboot record in the kernel half. No other byte of the memory has changed. -/
theorem kmain_entered (hfit : img.Fits) (hs : img.Entered s₀) {ls : List Label}
    (h : Run (Step img) s₀ ls s) (hkmain : ls.count .exec = 20) :
    s.eip = word img.kmain ∧
      (∀ la pa, s.mmu.Maps la pa ↔
        0xC0000000 ≤ la.toNat ∧ la.toNat < 0xC0400000 ∧ pa = la - word KERNEL_VIRTUAL_BASE) ∧
      s.esp = word (img.kernel_stack + (KERNEL_STACK_SIZE - 8)) ∧
      peek s.mmu.mem (physical s.esp) = word (img.codeAt 20) ∧
      peek s.mmu.mem (physical s.esp + 4#32) = s₀.reg .ebx + word KERNEL_VIRTUAL_BASE ∧
      ∀ x, ¬InDirectory img x → 8 ≤ (x - physical s.esp).toNat → s.mmu.mem x = s₀.mmu.mem x := by
  obtain ⟨-, hinv⟩ := run_inv hfit hs h
  rw [hkmain] at hinv
  have hesp : s.esp = word (img.kernel_stack + (KERNEL_STACK_SIZE - 8)) := by
    rw [← (img.flat_esp s₀).2]
    show s.reg .esp = _
    rw [hinv.agree.reg, img.code_flat rfl, Instr.flat_call_esp]
  obtain ⟨harg, hret⟩ := hinv.pushed hfit
  rw [img.stack_words hfit] at harg
  rw [hesp]
  refine ⟨hinv.agree.eip.trans img.flat_kmain, fun la pa => ?_, rfl, hret, harg,
    fun x hx hstack => hinv.untouched hfit hx hstack⟩
  exact hinv.kernel.1.kernel_maps hinv.kernel.2 la pa

/-- A null pointer faults. -/
theorem kmain_entered_small : ∃ ls s, Run (Step smallImage) grubEntry ls s ∧
    s.eip = word smallImage.kmain ∧ ∀ pa, ¬s.mmu.Maps 0#32 pa := by
  obtain ⟨s, hrun⟩ := run_exists smallImage_fits grubEntry_entered (n := 20) le_rfl
  obtain ⟨heip, hmaps, -⟩ :=
    kmain_entered smallImage_fits grubEntry_entered hrun (List.count_replicate_self ..)
  refine ⟨_, s, hrun, heip, fun pa hpa => ?_⟩
  exact absurd ((hmaps 0#32 pa).mp hpa).1 (by decide)

end MiniOS.Boot
