import MiniOS.Lib.Stack

/-!
# Paging

The two levels of tables of a 32-bit processor, in a memory of bytes, with pages of 4 KiB
and of 4 MiB. What a walk finds may be kept, and kept translations outlive a change of the
tables until they are dropped or flushed.
-/

namespace MiniOS.Lib

/-- A page of 4 KiB and its frame. A page of 4 MiB counts as 1024 of them. -/
structure Translation where
  page : BitVec 20
  frame : BitVec 20
  large : Bool
  deriving DecidableEq

structure Mmu where
  mem : Bytes
  cr0 : BitVec 32
  cr3 : BitVec 32
  cr4 : BitVec 32
  tlb : Set Translation

/-- Entry `i` of the table in frame `f`. -/
def entryAt (f : BitVec 20) (i : BitVec 10) : Address := f ++ i ++ 0#2

/-- The bits of `e` that a walk reads. It sets the other two, `A` and `D`, itself. -/
def SameEntry (e e' : BitVec 32) : Prop := ∀ i, i ≠ 5 → i ≠ 6 → e'.getLsbD i = e.getLsbD i

def Present (e : BitVec 32) : Bool := e.getLsbD 0

namespace Mmu

variable (s : Mmu)

def on : Bool := s.cr0.getLsbD 31

def directory : BitVec 20 := s.cr3.extractLsb' 12 20

def pdeAt (page : BitVec 20) : Address := entryAt s.directory (page.extractLsb' 10 10)

def pde (page : BitVec 20) : BitVec 32 := peek s.mem (s.pdeAt page)

/-- `PS` counts with `CR4.PSE` only. -/
def Large (e : BitVec 32) : Bool := e.getLsbD 7 && s.cr4.getLsbD 4

def pteAt (page : BitVec 20) : Address :=
  entryAt ((s.pde page).extractLsb' 12 20) (page.extractLsb' 0 10)

def pte (page : BitVec 20) : BitVec 32 := peek s.mem (s.pteAt page)

/-- Bits 13 to 21 of a large page are reserved. The tables of `CR4.PAE` are others. -/
def walk (page : BitVec 20) : Option Translation :=
  if s.cr4.getLsbD 5 then none
  else if !Present (s.pde page) then none
  else if s.Large (s.pde page) then
    if (s.pde page).extractLsb' 13 9 = 0#9 then
      some ⟨page, (s.pde page).extractLsb' 22 10 ++ page.extractLsb' 0 10, true⟩
    else none
  else if !Present (s.pte page) then none
  else some ⟨page, (s.pte page).extractLsb' 12 20, false⟩

/-- Where the entries are that the walk uses, to its end or to where it fails. -/
def entries (page : BitVec 20) : List Address :=
  if !Present (s.pde page) then []
  else if s.Large (s.pde page) || !Present (s.pte page) then [s.pdeAt page]
  else [s.pdeAt page, s.pteAt page]

/-- What the processor does by itself, between any two instructions. -/
inductive Move (s : Mmu) : Mmu → Prop
  | fill {page : BitVec 20} {t : Translation} :
      s.on = true → s.walk page = some t → Move s { s with tlb := insert t s.tlb }
  | evict (t : Translation) : Move s { s with tlb := s.tlb \ {t} }
  | mark {page : BitVec 20} {a : Address} {e : BitVec 32} :
      s.on = true → a ∈ s.entries page → SameEntry (peek s.mem a) e →
      Move s { s with mem := poke s.mem a e }

/-- An access to `la` may end at `pa`. -/
def Maps (la pa : Address) : Prop :=
  if s.on then
    ∃ t, (t ∈ s.tlb ∨ s.walk t.page = some t) ∧ t.page = la.extractLsb' 12 20 ∧
      pa = t.frame ++ la.extractLsb' 0 12
  else pa = la

/-- The bytes are stored one by one, each where its own translation says. -/
inductive Stores (s : Mmu) : Address → List (BitVec 8) → Bytes → Bytes → Prop
  | nil {la : Address} {m : Bytes} : Stores s la [] m m
  | cons {la pa : Address} {b : BitVec 8} {bs : List (BitVec 8)} {m m' : Bytes} :
      s.Maps la pa → Stores s (la + 1#32) bs (Function.update m pa b) m' → Stores s la (b :: bs) m m'

def invlpg (la : Address) : Mmu :=
  { s with tlb := { t ∈ s.tlb | t.page ≠ la.extractLsb' 12 20 ∧
      (t.large = true → t.page.extractLsb' 10 10 ≠ la.extractLsb' 22 10) } }

def setCr3 (v : BitVec 32) : Mmu := { s with cr3 := v, tlb := ∅ }

/-- Bits 4, 5 and 7 are `PSE`, `PAE` and `PGE`: to change one of them flushes. -/
def setCr4 (v : BitVec 32) : Mmu :=
  { s with cr4 := v, tlb := if (s.cr4 ^^^ v) &&& 0xB0#32 = 0#32 then s.tlb else ∅ }

def setCr0 (v : BitVec 32) : Mmu :=
  { s with cr0 := v, tlb := if s.on && !v.getLsbD 31 then ∅ else s.tlb }

/-- Apart from `old`, whatever is kept is what a walk finds now. -/
def Current (old : Set Translation) : Prop := ∀ t ∈ s.tlb, s.walk t.page = some t ∨ t ∈ old

end Mmu

/-! ## Bytes of a word -/

def storeBytes (m : Bytes) : Address → List (BitVec 8) → Bytes
  | _, [] => m
  | p, b :: bs => storeBytes (Function.update m p b) (p + 1#32) bs

theorem storeBytes_wordBytes (m : Bytes) (p : Address) (v : BitVec 32) :
    storeBytes m p (wordBytes v) = poke m p v := by
  funext x
  obtain ⟨d, rfl⟩ : ∃ d, x = p + d := ⟨x - p, by abel⟩
  unfold poke
  simp only [storeBytes, wordBytes, Function.update_apply, add_sub_cancel_left, add_assoc,
    add_right_inj, add_eq_left]
  by_cases h : d.toNat < 4
  · have : d = 0#32 ∨ d = 1#32 ∨ d = 2#32 ∨ d = 3#32 := by bv_omega
    rcases this with rfl | rfl | rfl | rfl <;> simp
  · rw [if_neg h, if_neg, if_neg, if_neg, if_neg]
    all_goals bv_omega

/-! ## Entries -/

theorem toNat_entryAt (f : BitVec 20) (i : BitVec 10) :
    (entryAt f i).toNat = f.toNat * 2 ^ 12 + i.toNat * 2 ^ 2 := by
  have hi := i.isLt
  unfold entryAt
  rw [BitVec.toNat_append, BitVec.toNat_append, BitVec.toNat_ofNat, Nat.zero_mod, Nat.or_zero,
    ← Nat.shiftLeft_add_eq_or_of_lt hi, Nat.shiftLeft_eq, Nat.shiftLeft_eq]
  ring

theorem entryAt_inj {f g : BitVec 20} {i j : BitVec 10} (h : entryAt f i = entryAt g j) :
    f = g ∧ i = j := by
  have hi := i.isLt
  have hj := j.isLt
  have hnat := congrArg BitVec.toNat h
  rw [toNat_entryAt, toNat_entryAt] at hnat
  constructor
  · apply BitVec.eq_of_toNat_eq
    omega
  · apply BitVec.eq_of_toNat_eq
    omega

theorem peek_poke_entryAt (m : Bytes) (f g : BitVec 20) (i j : BitVec 10) (e : BitVec 32) :
    peek (poke m (entryAt f i) e) (entryAt g j) =
      if entryAt g j = entryAt f i then e else peek m (entryAt g j) := by
  split
  · rename_i h
    rw [h, peek_poke]
  · rename_i h
    apply peek_congr
    intro k hk
    apply poke_other
    have hne : (entryAt g j).toNat ≠ (entryAt f i).toNat := fun h' => h (BitVec.eq_of_toNat_eq h')
    have hf := toNat_entryAt f i
    have hg := toNat_entryAt g j
    have hflt := (entryAt f i).isLt
    have hglt := (entryAt g j).isLt
    rw [BitVec.toNat_sub, BitVec.toNat_add, BitVec.toNat_ofNat]
    omega

theorem SameEntry.refl (e : BitVec 32) : SameEntry e e := fun _ _ _ => rfl

theorem SameEntry.trans {e e' e'' : BitVec 32} (h : SameEntry e e') (h' : SameEntry e' e'') :
    SameEntry e e'' := fun i h5 h6 => (h' i h5 h6).trans (h i h5 h6)

theorem SameEntry.extract {e e' : BitVec 32} (h : SameEntry e e') {start len : Nat} (hs : 6 < start) :
    e'.extractLsb' start len = e.extractLsb' start len := by
  apply BitVec.eq_of_getLsbD_eq
  intro i hi
  rw [BitVec.getLsbD_extractLsb', BitVec.getLsbD_extractLsb', h (start + i) (by omega) (by omega)]

theorem SameEntry.present {e e' : BitVec 32} (h : SameEntry e e') : Present e' = Present e :=
  h 0 (by decide) (by decide)

/-! ## Pages of 4 MiB -/

/-- The offset in a page of 4 MiB has 22 bits. -/
theorem large_address (f : BitVec 10) (la : Address) :
    (f ++ (la.extractLsb' 12 20).extractLsb' 0 10) ++ la.extractLsb' 0 12 = f ++ la.extractLsb' 0 22 := by
  apply BitVec.eq_of_getLsbD_eq
  intro i hi
  simp only [BitVec.getLsbD_append, BitVec.getLsbD_extractLsb']
  grind

theorem toNat_large_address (f : BitVec 10) (la : Address) :
    (f ++ la.extractLsb' 0 22).toNat = f.toNat * 2 ^ 22 + la.toNat % 2 ^ 22 := by
  rw [BitVec.toNat_append, BitVec.extractLsb'_toNat, Nat.shiftRight_zero,
    ← Nat.shiftLeft_add_eq_or_of_lt (Nat.mod_lt _ (by decide)), Nat.shiftLeft_eq]

theorem page_index (la : Address) :
    ((la.extractLsb' 12 20).extractLsb' 10 10).toNat = la.toNat / 2 ^ 22 := by
  have := la.isLt
  rw [BitVec.extractLsb'_toNat, BitVec.extractLsb'_toNat, Nat.shiftRight_eq_div_pow,
    Nat.shiftRight_eq_div_pow]
  omega

namespace Mmu

variable {s s' : Mmu}

theorem walk_page {page : BitVec 20} {t : Translation} (h : s.walk page = some t) : t.page = page := by
  unfold walk at h
  grind

/-! ## What the processor does by itself -/

/-- Two memories whose tables differ in `A` and `D` only. -/
structure Alike (s s' : Mmu) : Prop where
  cr3 : s'.cr3 = s.cr3
  cr4 : s'.cr4 = s.cr4
  entry : ∀ f i, SameEntry (peek s.mem (entryAt f i)) (peek s'.mem (entryAt f i))

section
variable (h : Alike s s')
include h

theorem Alike.pde (page : BitVec 20) : SameEntry (s.pde page) (s'.pde page) := by
  unfold Mmu.pde pdeAt directory
  rw [h.cr3]
  exact h.entry _ _

theorem Alike.large {e e' : BitVec 32} (he : SameEntry e e') : s'.Large e' = s.Large e := by
  unfold Large
  rw [h.cr4, he 7 (by decide) (by decide)]

theorem Alike.pteAt (page : BitVec 20) : s'.pteAt page = s.pteAt page := by
  unfold Mmu.pteAt
  rw [(h.pde page).extract (by decide)]

theorem Alike.pte (page : BitVec 20) : SameEntry (s.pte page) (s'.pte page) := by
  unfold Mmu.pte
  rw [h.pteAt page]
  exact h.entry _ _

theorem Alike.walk : s'.walk = s.walk := by
  funext page
  have hpde := h.pde page
  unfold Mmu.walk
  rw [h.cr4, hpde.present, (h.pte page).present, h.large hpde, hpde.extract (by decide),
    hpde.extract (by decide), (h.pte page).extract (by decide)]

end

theorem entries_entryAt {page : BitVec 20} {a : Address} (h : a ∈ s.entries page) :
    ∃ f i, a = entryAt f i := by
  unfold entries at h
  split at h
  · cases h
  split at h
  · exact ⟨_, _, List.mem_singleton.mp h⟩
  · rcases List.mem_cons.mp h with rfl | h
    · exact ⟨_, _, rfl⟩
    · exact ⟨_, _, List.mem_singleton.mp h⟩

theorem Move.alike (h : Move s s') : Alike s s' := by
  cases h with
  | fill => exact ⟨rfl, rfl, fun _ _ => .refl _⟩
  | evict => exact ⟨rfl, rfl, fun _ _ => .refl _⟩
  | mark _ ha he =>
    refine ⟨rfl, rfl, fun g j => ?_⟩
    obtain ⟨f, i, rfl⟩ := entries_entryAt ha
    rw [peek_poke_entryAt]
    split
    · rename_i heq
      rwa [heq]
    · exact .refl _

theorem Move.on (h : Move s s') : s'.on = s.on := by
  cases h <;> rfl

theorem Move.current {old : Set Translation} (hm : Move s s') (h : s.Current old) : s'.Current old := by
  have hwalk := hm.alike.walk
  intro t ht
  rw [hwalk]
  cases hm with
  | @fill page t' _ hfound =>
    rcases ht with rfl | ht
    · refine Or.inl ?_
      rwa [walk_page hfound]
    · exact h t ht
  | evict => exact h t ht.1
  | mark => exact h t ht

/-- Memory changes in the entries of the tables only. -/
theorem Move.mem (hm : Move s s') {x : Address}
    (hx : ∀ page, ∀ a ∈ s.entries page, 4 ≤ (x - a).toNat) : s'.mem x = s.mem x := by
  cases hm with
  | fill => rfl
  | evict => rfl
  | mark _ ha => exact poke_other (hx _ _ ha)

theorem setCr4_tlb (v : BitVec 32) : (s.setCr4 v).tlb ⊆ s.tlb := by
  unfold setCr4
  dsimp only
  split
  · exact subset_rfl
  · exact Set.empty_subset _

theorem setCr0_tlb (v : BitVec 32) : (s.setCr0 v).tlb ⊆ s.tlb := by
  unfold setCr0
  dsimp only
  split
  · exact Set.empty_subset _
  · exact subset_rfl

/-! ## Where an access ends -/

theorem maps_off (h : s.on = false) {la pa : Address} : s.Maps la pa ↔ pa = la := by
  unfold Maps
  rw [h]
  exact Iff.rfl

/-- Away from what is out of date, an access goes where a walk sends it. -/
theorem Current.maps_iff {old : Set Translation} (h : s.Current old) (hon : s.on = true)
    {la pa : Address} (hold : ∀ t ∈ old, t.page ≠ la.extractLsb' 12 20) :
    s.Maps la pa ↔
      ∃ t, s.walk (la.extractLsb' 12 20) = some t ∧ pa = t.frame ++ la.extractLsb' 0 12 := by
  unfold Maps
  rw [if_pos hon]
  constructor
  · rintro ⟨t, ht | ht, hpage, hpa⟩
    · rcases h t ht with hwalk | hmem
      · exact ⟨t, hpage ▸ hwalk, hpa⟩
      · exact absurd hpage (hold t hmem)
    · exact ⟨t, hpage ▸ ht, hpa⟩
  · rintro ⟨t, ht, hpa⟩
    have hpage := walk_page ht
    exact ⟨t, Or.inr (by rwa [hpage]), hpage, hpa⟩

/-! ## Stores -/

/-- Where every byte has one translation, the store is that of a flat memory. -/
theorem stores_iff {bs : List (BitVec 8)} {la p : Address} {m m' : Bytes}
    (h : ∀ k < bs.length, ∀ pa, s.Maps (la + BitVec.ofNat 32 k) pa ↔ pa = p + BitVec.ofNat 32 k) :
    s.Stores la bs m m' ↔ m' = storeBytes m p bs := by
  induction bs generalizing la p m with
  | nil =>
    constructor
    · rintro ⟨⟩
      rfl
    · rintro rfl
      exact .nil
  | cons b bs ih =>
    have hfirst : ∀ pa, s.Maps la pa ↔ pa = p := by simpa using h 0 (Nat.succ_pos _)
    have hrest : ∀ k < bs.length, ∀ pa,
        s.Maps (la + 1#32 + BitVec.ofNat 32 k) pa ↔ pa = p + 1#32 + BitVec.ofNat 32 k := by
      intro k hk pa
      have := h (k + 1) (Nat.succ_lt_succ hk) pa
      rwa [Nat.add_comm k 1, BitVec.ofNat_add, ← add_assoc, ← add_assoc] at this
    constructor
    · rintro ⟨⟩
      rename_i pa hpa hstores
      rw [(hfirst pa).mp hpa] at hstores
      exact (ih hrest).mp hstores
    · rintro rfl
      exact .cons ((hfirst p).mpr rfl) ((ih hrest).mpr rfl)

end Mmu

end MiniOS.Lib
