import MiniOS.Lib.Prog
import MiniOS.Memory.Reserved

/-!
# The walk over the memory map

GRUB writes records of different sizes back to back. The loop of step 2 reads each of
them once, in order and inside the buffer, as long as it gets to the next round.
-/

open MiniOS.Lib

namespace MiniOS.Memory

/-! ## Records as bytes -/

/-- An entry, and the bytes that fill up its `size`. -/
structure Record where
  entry : MultibootMemoryMap
  extra : List Byte
  fits : entry.size.toNat = 20 + extra.length

def Record.bytes (r : Record) : List Byte := r.entry.words.flatMap wordBytes ++ r.extra

def Written (mem : Mem) : Nat → List Byte → Prop
  | _, [] => True
  | addr, b :: bs => mem (BitVec.ofNat 32 addr) = b ∧ Written mem (addr + 1) bs

instance decidableWritten (mem : Mem) : (addr : Nat) → (bs : List Byte) → Decidable (Written mem addr bs)
  | _, [] => inferInstanceAs (Decidable True)
  | addr, b :: bs =>
    have := decidableWritten mem (addr + 1) bs
    inferInstanceAs (Decidable (mem (BitVec.ofNat 32 addr) = b ∧ Written mem (addr + 1) bs))

theorem written_append {mem : Mem} {addr : Nat} {as bs : List Byte} :
    Written mem addr (as ++ bs) ↔ Written mem addr as ∧ Written mem (addr + as.length) bs := by
  induction as generalizing addr with
  | nil => simp [Written]
  | cons a as ih => simp only [List.cons_append, Written, ih, and_assoc, List.length_cons, Nat.add_assoc,
      Nat.add_comm 1]

theorem load_of_written {mem : Mem} {addr : Nat} {w : Word} (h : Written mem addr (wordBytes w)) :
    load mem (BitVec.ofNat 32 addr) = w := by
  obtain ⟨h0, h1, h2, h3, -⟩ := h
  simp only [Nat.add_assoc, Nat.reduceAdd, BitVec.ofNat_add] at h0 h1 h2 h3
  rw [load, peek, h0, h1, h2, h3, wordBytes_append]

theorem load_at_of_written {mem : Mem} {addr k : Nat} {w : Word} (h : Written mem (addr + k) (wordBytes w)) :
    load mem (BitVec.ofNat 32 addr + BitVec.ofNat 32 k) = w := by
  rw [← BitVec.ofNat_add]
  exact load_of_written h

theorem read_of_written {mem : Mem} {addr : Nat} {e : MultibootMemoryMap}
    (h : Written mem addr (e.words.flatMap wordBytes)) :
    MultibootMemoryMap.read mem (BitVec.ofNat 32 addr) = e := by
  simp only [MultibootMemoryMap.words, List.flatMap_cons, List.flatMap_nil, written_append,
    length_wordBytes, Nat.add_assoc, Nat.reduceAdd] at h
  obtain ⟨hsize, hbase, hbase', hlength, hlength', htype, -⟩ := h
  rw [MultibootMemoryMap.read, load_of_written hsize, load_at_of_written hbase, load_at_of_written hbase',
    load_at_of_written hlength, load_at_of_written hlength', load_at_of_written htype]

@[simp] theorem Record.length_bytes (r : Record) : r.bytes.length = r.entry.size.toNat + 4 := by
  simp only [Record.bytes, MultibootMemoryMap.words, List.flatMap_cons, List.flatMap_nil, List.length_append,
    length_wordBytes, List.length_nil, r.fits]
  omega

theorem size_of_record (rs : List Record) : ∀ e ∈ rs.map Record.entry, 20 ≤ e.size.toNat := by
  intro e he
  obtain ⟨r, -, rfl⟩ := List.mem_map.mp he
  have := r.fits
  omega

theorem written_congr {mem mem' : Mem} {addr : Nat} {bs : List Byte} (h : Written mem addr bs)
    (hsame : ∀ n, addr ≤ n → n < addr + bs.length → mem' (BitVec.ofNat 32 n) = mem (BitVec.ofNat 32 n)) :
    Written mem' addr bs := by
  induction bs generalizing addr with
  | nil => trivial
  | cons b bs ih =>
    rw [List.length_cons] at hsame
    exact ⟨(hsame addr le_rfl (by omega)).trans h.1, ih h.2 fun n hn hn' => hsame n (by omega) (by omega)⟩

/-- What is written record by record stands back to back. -/
theorem laidOut_of_written {mem : Mem} {rs : List Record} {addr : Nat}
    (h : Written mem addr (rs.flatMap Record.bytes)) :
    LaidOut mem addr (rs.map Record.entry) (addr + (rs.flatMap Record.bytes).length) := by
  induction rs generalizing addr with
  | nil => rfl
  | cons r rs ih =>
    rw [List.flatMap_cons, written_append] at h
    obtain ⟨hr, hrs⟩ := h
    rw [Record.bytes, written_append] at hr
    refine ⟨read_of_written hr.1, ?_⟩
    have hrest := ih hrs
    simpa [Nat.add_assoc] using hrest

/-! ## Rounds -/

/-- Where the records begin. -/
def cursors : Nat → List MultibootMemoryMap → List Word
  | _, [] => []
  | addr, e :: es => BitVec.ofNat 32 addr :: cursors (addr + e.size.toNat + 4) es

/-- In which state the round of each record begins. -/
def rounds (fuel : Nat) : Nat → List MultibootMemoryMap → Bitmap → List (Word × Bitmap)
  | _, [], _ => []
  | addr, e :: es, bm =>
    (BitVec.ofNat 32 addr, bm) ::
      (free_entry fuel bm e).elim [] (rounds fuel (addr + e.size.toNat + 4) es)

theorem ofNat_add_word (n : Nat) (w : Word) : BitVec.ofNat 32 n + w = BitVec.ofNat 32 (n + w.toNat) := by
  rw [BitVec.ofNat_add, BitVec.ofNat_toNat, BitVec.setWidth_eq]

section

variable {mem : Mem} {es : List MultibootMemoryMap} {addr stop : Nat} {fuel : Nat}

theorem walking_cons {e : MultibootMemoryMap} (hstop : stop < 2 ^ 32) (h : LaidOut mem addr (e :: es) stop)
    (bm : Bitmap) : walking (BitVec.ofNat 32 stop) (BitVec.ofNat 32 addr, bm) = true := by
  have hle := h.2.le
  apply decide_eq_true
  rw [BitVec.lt_def, BitVec.toNat_ofNat, BitVec.toNat_ofNat]
  omega

theorem walking_nil (bm : Bitmap) : walking (BitVec.ofNat 32 stop) (BitVec.ofNat 32 stop, bm) = false :=
  decide_eq_false (BitVec.lt_irrefl _)

theorem walkStep_next {e : MultibootMemoryMap} (h : LaidOut mem addr (e :: es) stop) {bm : Bitmap}
    {y : Word × Bitmap} (hstep : walkStep fuel mem (BitVec.ofNat 32 addr, bm) = some y) :
    y.1 = BitVec.ofNat 32 (addr + e.size.toNat + 4) := by
  rw [(walkStep_some hstep).2, h.1, ofNat_add_word, ← BitVec.ofNat_add]

/-- A walk that ends has done the work of each record, in the round that began there. -/
theorem visits_rounds (hstop : stop < 2 ^ 32) (h : LaidOut mem addr es stop) {n : Nat} {bm : Bitmap}
    {y : Word × Bitmap}
    (hend : whileLoop (walking (BitVec.ofNat 32 stop)) (walkStep fuel mem) n (BitVec.ofNat 32 addr, bm) = some y) :
    whileVisits (walking (BitVec.ofNat 32 stop)) (walkStep fuel mem) n (BitVec.ofNat 32 addr, bm) =
        rounds fuel addr es bm ∧
      y.1 = BitVec.ofNat 32 stop ∧ es.foldlM (free_entry fuel) bm = some y.2 := by
  induction es generalizing addr n bm with
  | nil =>
    obtain rfl : addr = stop := h
    rw [whileLoop_stop (walking_nil bm)] at hend
    obtain rfl := Option.some.inj hend
    exact ⟨whileVisits_stop (walking_nil bm), rfl, rfl⟩
  | cons e es ih =>
    have hcond := walking_cons hstop h bm
    rcases whileLoop_some hend with ⟨hc, -⟩ | ⟨m, ⟨cursor, bm'⟩, rfl, -, hbody, hrest⟩
    · rw [hcond] at hc
      cases hc
    · obtain rfl : cursor = _ := walkStep_next h hbody
      have hentry : free_entry fuel bm e = some bm' := by rw [← h.1]; exact (walkStep_some hbody).1
      obtain ⟨hvisits, hlast, hfold⟩ := ih h.2 hrest
      refine ⟨?_, hlast, ?_⟩
      · rw [whileVisits_step hcond hbody, hvisits, rounds, hentry]
        rfl
      · rw [List.foldlM_cons, hentry]
        exact hfold

/-- On another memory with the same records the walk is the same. -/
theorem walk_congr {mem' : Mem} (hstop : stop < 2 ^ 32) (h : LaidOut mem addr es stop)
    (h' : LaidOut mem' addr es stop) (n : Nat) (bm : Bitmap) :
    whileLoop (walking (BitVec.ofNat 32 stop)) (walkStep fuel mem') n (BitVec.ofNat 32 addr, bm) =
      whileLoop (walking (BitVec.ofNat 32 stop)) (walkStep fuel mem) n (BitVec.ofNat 32 addr, bm) := by
  induction n generalizing es addr bm with
  | zero => rfl
  | succ n ih =>
    cases es with
    | nil =>
      obtain rfl : addr = stop := h
      rw [whileLoop_stop (walking_nil bm), whileLoop_stop (walking_nil bm)]
    | cons e es =>
      have hread : MultibootMemoryMap.read mem' (BitVec.ofNat 32 addr) =
          MultibootMemoryMap.read mem (BitVec.ofNat 32 addr) := h'.1.trans h.1.symm
      have hbody : walkStep fuel mem' (BitVec.ofNat 32 addr, bm) =
          walkStep fuel mem (BitVec.ofNat 32 addr, bm) := by
        unfold walkStep
        rw [hread]
      have hcond := walking_cons hstop h bm
      rw [whileLoop, whileLoop, if_pos hcond, if_pos hcond, hbody]
      cases hstep : walkStep fuel mem (BitVec.ofNat 32 addr, bm) with
      | none => rfl
      | some y =>
        obtain ⟨cursor, bm'⟩ := y
        obtain rfl : cursor = _ := walkStep_next h hstep
        exact ih h.2 h'.2 bm'

/-- The walk ends exactly when the region loop of each record does. -/
theorem walk_ended_iff (hstop : stop < 2 ^ 32) (h : LaidOut mem addr es stop) (bm : Bitmap) :
    (∃ fuel y, whileLoop (walking (BitVec.ofNat 32 stop)) (walkStep fuel mem) fuel (BitVec.ofNat 32 addr, bm) =
      some y) ↔ ∀ e ∈ es, e.Ends := by
  have hes := h.entries hstop
  constructor
  · rintro ⟨fuel, y, hy⟩
    obtain ⟨es', hes', hends⟩ := walk_entries hy
    rwa [hes.unique hes']
  · intro hends
    obtain ⟨y, hy⟩ := walk_ends hes hends bm
    exact ⟨max (2 ^ 20) es.length, y,
      whileLoop_mono (walkStep_mono (le_max_left _ _)) (le_max_right _ _) hy⟩

end

/-! ## Every address that is read -/

/-- The state is the addresses read so far, oldest first, and the only fault is to run out of fuel. -/
abbrev Walker := Prog Unit (List Word)

namespace Walker

def byte (mem : Mem) (p : Word) : Walker Byte := .stmt (fun reads => reads ++ [p]) fun _ => .ret (mem p)

def word (mem : Mem) (p : Word) : Walker Word := do
  let b0 ← byte mem p
  let b1 ← byte mem (p + 1#32)
  let b2 ← byte mem (p + 2#32)
  let b3 ← byte mem (p + 3#32)
  return b3 ++ b2 ++ b1 ++ b0

/-- The entry at `mmap`, if it is available. -/
def free (fuel : Nat) (mem : Mem) (mmap : Word) (bm : Bitmap) : Walker Bitmap := do
  let type ← word mem (mmap + 20#32)
  if type = 1#32 then
    let region_start ← word mem (mmap + 4#32)
    let length_low ← word mem (mmap + 12#32)
    Prog.get () (clear_region fuel bm region_start (region_start + length_low))
  else
    return bm

def round (fuel : Nat) (mem : Mem) (x : Word × Bitmap) : Walker (Word × Bitmap) := do
  let bm ← free fuel mem x.1 x.2
  let size ← word mem x.1
  return (x.1 + size + 4#32, bm)

def walk (fuel : Nat) (mem : Mem) (stop : Word) : Nat → Word × Bitmap → Walker (Word × Bitmap)
  | 0, x => if walking stop x then .fault () else pure x
  | n + 1, x => if walking stop x then round fuel mem x >>= walk fuel mem stop n else pure x

end Walker

def wordAddrs (p : Word) : List Word := [p, p + 1#32, p + 2#32, p + 3#32]

/-- `type`, then base and length of an available region. -/
def MultibootMemoryMap.region (e : MultibootMemoryMap) (mmap : Word) : List Word :=
  wordAddrs (mmap + 20#32) ++
    if e.type = 1#32 then wordAddrs (mmap + 4#32) ++ wordAddrs (mmap + 12#32) else []

/-- And then `size`. -/
def MultibootMemoryMap.reads (e : MultibootMemoryMap) (mmap : Word) : List Word :=
  e.region mmap ++ wordAddrs mmap

section

variable {mem : Mem} {fuel : Nat} {reads : List Word} {E : Unit → List Word → Prop}

theorem ends_word {p : Word} {Q : Word → List Word → Prop} :
    (Walker.word mem p).ends Q E reads ↔ Q (load mem p) (reads ++ wordAddrs p) := by
  have hreads : reads ++ [p] ++ [p + 1#32] ++ [p + 2#32] ++ [p + 3#32] = reads ++ wordAddrs p := by
    simp only [List.append_assoc, List.cons_append, List.nil_append, wordAddrs]
  rw [← hreads]
  exact Iff.rfl

theorem ends_free {mmap : Word} {bm : Bitmap} {Q : Bitmap → List Word → Prop} :
    (Walker.free fuel mem mmap bm).ends Q E reads ↔
      match free_entry fuel bm (MultibootMemoryMap.read mem mmap) with
      | some bm' => Q bm' (reads ++ (MultibootMemoryMap.read mem mmap).region mmap)
      | none => E () (reads ++ (MultibootMemoryMap.read mem mmap).region mmap) := by
  have htype : (MultibootMemoryMap.read mem mmap).type = load mem (mmap + 20#32) := rfl
  have hentry : free_entry fuel bm (MultibootMemoryMap.read mem mmap) =
      if load mem (mmap + 20#32) = 1#32 then
        clear_region fuel bm (load mem (mmap + 4#32)) (load mem (mmap + 4#32) + load mem (mmap + 12#32))
      else some bm := rfl
  unfold Walker.free MultibootMemoryMap.region
  rw [Prog.ends_bind, ends_word, hentry, htype]
  by_cases hfree : load mem (mmap + 20#32) = 1#32
  · rw [if_pos hfree, if_pos hfree, if_pos hfree, Prog.ends_bind, ends_word, Prog.ends_bind, ends_word]
    simp only [List.append_assoc]
    cases clear_region fuel bm (load mem (mmap + 4#32)) (load mem (mmap + 4#32) + load mem (mmap + 12#32)) <;>
      exact Iff.rfl
  · rw [if_neg hfree, if_neg hfree, if_neg hfree, List.append_nil]
    exact Iff.rfl

/-- On pointers, a round does what `walkStep` does. -/
theorem ends_round {x : Word × Bitmap} {Q : Word × Bitmap → List Word → Prop} :
    (Walker.round fuel mem x).ends Q E reads ↔
      match walkStep fuel mem x with
      | some y => Q y (reads ++ (MultibootMemoryMap.read mem x.1).reads x.1)
      | none => E () (reads ++ (MultibootMemoryMap.read mem x.1).region x.1) := by
  have hstep : walkStep fuel mem x = (free_entry fuel x.2 (MultibootMemoryMap.read mem x.1)).map fun bm =>
      (x.1 + load mem x.1 + 4#32, bm) := rfl
  unfold Walker.round MultibootMemoryMap.reads
  rw [Prog.ends_bind, ends_free, hstep]
  cases free_entry fuel x.2 (MultibootMemoryMap.read mem x.1) with
  | none => exact Iff.rfl
  | some bm =>
    show (Walker.word mem x.1 >>= _).ends Q E _ ↔ _
    rw [Prog.ends_bind, ends_word, List.append_assoc]
    exact Iff.rfl

theorem Walker.walk_stop {stop : Word} {n : Nat} {x : Word × Bitmap} (h : walking stop x = false) :
    Walker.walk fuel mem stop n x = pure x := by
  cases n <;> simp [Walker.walk, h]

variable (reads) in
/-- A walk that ends has read the fields of each record, one record after the other. -/
theorem walk_reads {es : List MultibootMemoryMap} {addr stop : Nat} (hstop : stop < 2 ^ 32)
    (h : LaidOut mem addr es stop) {n : Nat} {bm : Bitmap} {y : Word × Bitmap}
    (hend : whileLoop (walking (BitVec.ofNat 32 stop)) (walkStep fuel mem) n (BitVec.ofNat 32 addr, bm) = some y) :
    (Walker.walk fuel mem (BitVec.ofNat 32 stop) n (BitVec.ofNat 32 addr, bm)).ends
      (fun y' reads' => y' = y ∧ reads' = reads ++ ((cursors addr es).zip es).flatMap fun x => x.2.reads x.1)
      (fun _ _ => False) reads := by
  induction es generalizing addr n bm reads with
  | nil =>
    obtain rfl : addr = stop := h
    rw [whileLoop_stop (walking_nil bm)] at hend
    rw [Walker.walk_stop (walking_nil bm)]
    exact ⟨Option.some.inj hend, (List.append_nil _).symm⟩
  | cons e es ih =>
    have hcond := walking_cons hstop h bm
    rcases whileLoop_some hend with ⟨hc, -⟩ | ⟨m, ⟨cursor, bm'⟩, rfl, -, hbody, hrest⟩
    · rw [hcond] at hc
      cases hc
    · obtain rfl : cursor = _ := walkStep_next h hbody
      rw [Walker.walk, if_pos hcond, Prog.ends_bind, ends_round, hbody]
      simp only [h.1, cursors, List.zip_cons_cons, List.flatMap_cons, ← List.append_assoc]
      exact ih _ h.2 hrest

end

/-! ## Inside the buffer -/

def Inside (lo hi : Nat) (reads : List Word) : Prop := ∀ a ∈ reads, lo ≤ a.toNat ∧ a.toNat < hi

section

variable {mem : Mem} {lo addr stop : Nat} {reads : List Word} {fuel : Nat} {e : MultibootMemoryMap}

theorem Inside.append {reads' : List Word} (h : Inside lo stop reads) (h' : Inside lo stop reads') :
    Inside lo stop (reads ++ reads') := by
  intro a ha
  rcases List.mem_append.mp ha with ha | ha
  · exact h a ha
  · exact h' a ha

theorem inside_field (hstop : stop < 2 ^ 32) (hlo : lo ≤ addr) (hfits : addr + 24 ≤ stop) {k : Nat}
    (hk : k ≤ 20) : Inside lo stop (wordAddrs (BitVec.ofNat 32 addr + BitVec.ofNat 32 k)) := by
  intro a ha
  simp only [wordAddrs, List.mem_cons, List.not_mem_nil, or_false] at ha
  rcases ha with rfl | rfl | rfl | rfl
  all_goals
    simp only [BitVec.toNat_add, BitVec.toNat_ofNat]
    omega

theorem inside_region (hstop : stop < 2 ^ 32) (hlo : lo ≤ addr) (hfits : addr + 24 ≤ stop) :
    Inside lo stop (e.region (BitVec.ofNat 32 addr)) := by
  unfold MultibootMemoryMap.region
  refine (inside_field hstop hlo hfits (le_refl 20)).append ?_
  split
  · exact (inside_field hstop hlo hfits (show 4 ≤ 20 by decide)).append
      (inside_field hstop hlo hfits (show 12 ≤ 20 by decide))
  · exact fun a ha => absurd ha List.not_mem_nil

theorem Inside.between (h : Inside lo stop reads) (hlo : lo < 2 ^ 32) (hstop : stop < 2 ^ 32) :
    ∀ a ∈ reads, BitVec.ofNat 32 lo ≤ a ∧ a < BitVec.ofNat 32 stop := by
  intro a ha
  have := h a ha
  rw [BitVec.le_def, BitVec.lt_def, BitVec.toNat_ofNat, BitVec.toNat_ofNat]
  omega

/-- No read is outside the buffer, also where the walk does not end. -/
theorem walk_inside {es : List MultibootMemoryMap} (hstop : stop < 2 ^ 32) (hsize : ∀ e ∈ es, 20 ≤ e.size.toNat)
    (h : LaidOut mem addr es stop) (hlo : lo ≤ addr) (hreads : Inside lo stop reads) (fuel n : Nat)
    (bm : Bitmap) :
    (Walker.walk fuel mem (BitVec.ofNat 32 stop) n (BitVec.ofNat 32 addr, bm)).ends
      (fun _ => Inside lo stop) (fun _ => Inside lo stop) reads := by
  induction n generalizing addr es bm reads with
  | zero =>
    rw [Walker.walk]
    split <;> exact hreads
  | succ n ih =>
    cases es with
    | nil =>
      obtain rfl : addr = stop := h
      rw [Walker.walk_stop (walking_nil bm)]
      exact hreads
    | cons e es =>
      rw [List.forall_mem_cons] at hsize
      have hle := h.2.le
      have hfits : addr + 24 ≤ stop := by omega
      have hregion := hreads.append (inside_region (e := e) hstop hlo hfits)
      rw [Walker.walk, if_pos (walking_cons hstop h bm), Prog.ends_bind, ends_round]
      cases hbody : walkStep fuel mem (BitVec.ofNat 32 addr, bm) with
      | none => simpa only [h.1] using hregion
      | some y =>
        obtain ⟨cursor, bm'⟩ := y
        obtain rfl : cursor = _ := walkStep_next h hbody
        have hfield := inside_field hstop hlo hfits (Nat.zero_le 20)
        rw [BitVec.add_zero] at hfield
        simp only [h.1, MultibootMemoryMap.reads, ← List.append_assoc]
        exact ih hsize.2 h.2 (by omega) (hregion.append hfield) bm'

end

/-! ## The whole walk -/

/-- The walk over the records from `mmap_addr` ends. A round begins at each record, once and in order,
with what the records before it have freed, and what the walk frees is what all of them say. It reads
exactly the fields of each record, and nothing outside the buffer: what is there makes no difference. -/
def DecodesExactly (mem : Mem) (mbinfo : MultibootInfo) (bm : Bitmap) (rs : List Record) : Prop :=
  let start := mbinfo.mmap_addr + KERNEL_VIRTUAL_BASE
  let stop := start + mbinfo.mmap_length
  let es := rs.map Record.entry
  ∃ fuel bm' reads, es.foldlM (free_entry fuel) bm = some bm' ∧
    whileLoop (walking stop) (walkStep fuel mem) fuel (start, bm) = some (stop, bm') ∧
    whileVisits (walking stop) (walkStep fuel mem) fuel (start, bm) = rounds fuel start.toNat es bm ∧
    (Walker.walk fuel mem stop fuel (start, bm)).exec [] = .ok ((stop, bm'), reads) ∧
    reads = ((cursors start.toNat es).zip es).flatMap (fun x => x.2.reads x.1) ∧
    (∀ a ∈ reads, start ≤ a ∧ a < stop) ∧
    ∀ mem', (∀ a, start ≤ a → a < stop → mem' a = mem a) →
      whileLoop (walking stop) (walkStep fuel mem') fuel (start, bm) = some (stop, bm')

/-- **The memory map walk.** On any records back to back, without a wrap of the addresses, the walk
does its work exactly when no available region ends above the last address that its loop looks at. -/
theorem walk_decodes_iff (mem : Mem) (mbinfo : MultibootInfo) (bm : Bitmap) (rs : List Record)
    (hlength : mbinfo.mmap_length.toNat = (rs.flatMap Record.bytes).length)
    (hwrap : mbinfo.mmap_addr.toNat + 0xC0000000 + mbinfo.mmap_length.toNat < 2 ^ 32)
    (hwritten : Written mem (mbinfo.mmap_addr.toNat + 0xC0000000) (rs.flatMap Record.bytes)) :
    DecodesExactly mem mbinfo bm rs ↔ ∀ r ∈ rs, r.entry.type = 1#32 →
      (r.entry.base_addr_low + r.entry.length_low).toNat ≤ 0xFFFFF000 + r.entry.base_addr_low.toNat % 4096 := by
  have hlaid := laidOut_of_written hwritten
  rw [← hlength] at hlaid
  have haddr : mbinfo.mmap_addr + KERNEL_VIRTUAL_BASE =
      BitVec.ofNat 32 (mbinfo.mmap_addr.toNat + 0xC0000000) := by
    rw [BitVec.ofNat_add, BitVec.ofNat_toNat, BitVec.setWidth_eq]
  have hnat : (BitVec.ofNat 32 (mbinfo.mmap_addr.toNat + 0xC0000000)).toNat =
      mbinfo.mmap_addr.toNat + 0xC0000000 := by
    rw [BitVec.toNat_ofNat]
    omega
  have hends : (∀ e ∈ rs.map Record.entry, e.Ends) ↔ ∀ r ∈ rs, r.entry.Ends := List.forall_mem_map
  refine Iff.trans ?_ hends
  rw [← walk_ended_iff hwrap hlaid bm]
  simp only [DecodesExactly, haddr, ofNat_add_word]
  constructor
  · rintro ⟨fuel, bm', -, -, hy, -⟩
    exact ⟨fuel, _, hy⟩
  · rintro ⟨fuel, ⟨cursor, bm'⟩, hy⟩
    obtain ⟨hvisits, hcursor, hfold⟩ := visits_rounds hwrap hlaid hy
    obtain rfl : cursor = _ := hcursor
    have hreads := Prog.exec_of_ends (walk_reads [] hwrap hlaid hy)
    refine ⟨fuel, bm', _, hfold, hy, by rw [hnat, hvisits], hreads, by rw [hnat, List.nil_append], ?_,
      fun mem' hsame => ?_⟩
    · have hempty : Inside (mbinfo.mmap_addr.toNat + 0xC0000000)
          (mbinfo.mmap_addr.toNat + 0xC0000000 + mbinfo.mmap_length.toNat) [] := nofun
      have hinside := walk_inside hwrap (size_of_record rs) hlaid (le_refl _) hempty fuel fuel bm
      exact (Prog.ends_exec hinside hreads).between (by omega) hwrap
    · have hlaid' := laidOut_of_written (written_congr hwritten fun n hn hn' => hsame (BitVec.ofNat 32 n)
        (by rw [BitVec.le_def, BitVec.toNat_ofNat, BitVec.toNat_ofNat]; omega)
        (by rw [BitVec.lt_def, BitVec.toNat_ofNat, BitVec.toNat_ofNat]; omega))
      rw [← hlength] at hlaid'
      rw [walk_congr hwrap hlaid hlaid', hy]

/-- Memory that holds `bs` at `p`. -/
def bytesAt (p : Word) (bs : List Byte) : Mem := fun a => bs.getD (a - p).toNat 0#8

def mapAt (mmap_length : Word) : MultibootInfo :=
  { flags := 0x40#32, mods_count := 0#32, mods_addr := 0#32, mmap_length := mmap_length, mmap_addr := 0x2000#32 }

/-- An available and a reserved region, the second with an attribute word behind it. -/
def twoRecords : List Record :=
  [⟨ramAt 0#32 0x9FC00#32, [], rfl⟩,
    ⟨{ ramAt 0x9FC00#32 0x400#32 with size := 24#32, type := 2#32 }, [1#8, 0#8, 0#8, 0#8], rfl⟩]

theorem walk_decodes_two :
    DecodesExactly (bytesAt 0xC0002000#32 (twoRecords.flatMap Record.bytes)) (mapAt 52#32)
      (Vector.replicate _ 0#32) twoRecords :=
  (walk_decodes_iff _ (mapAt 52#32) _ twoRecords rfl (by decide) (by decide)).mpr (by decide)

/-- An available region that ends in the last page. -/
def lastPageRecord : List Record := [⟨ramAt 0#32 0xFFFFF800#32, [], rfl⟩]

theorem walk_never_ends :
    (mapAt 24#32).mmap_length.toNat = (lastPageRecord.flatMap Record.bytes).length ∧
      (mapAt 24#32).mmap_addr.toNat + 0xC0000000 + (mapAt 24#32).mmap_length.toNat < 2 ^ 32 ∧
      Written (bytesAt 0xC0002000#32 (lastPageRecord.flatMap Record.bytes))
        ((mapAt 24#32).mmap_addr.toNat + 0xC0000000) (lastPageRecord.flatMap Record.bytes) ∧
      ¬ DecodesExactly (bytesAt 0xC0002000#32 (lastPageRecord.flatMap Record.bytes)) (mapAt 24#32)
        (Vector.replicate _ 0#32) lastPageRecord := by
  refine ⟨rfl, by decide, by decide, ?_⟩
  rintro ⟨fuel, bm', -, -, hy, -⟩
  have hlaid : LaidOut (bytesAt 0xC0002000#32 (lastPageRecord.flatMap Record.bytes)) 0xC0002000
      (lastPageRecord.map Record.entry) 0xC0002018 := laidOut_of_written (by decide)
  have hends := (walk_ended_iff (by decide) hlaid _).mp ⟨fuel, _, hy⟩ _ (List.mem_singleton.mpr rfl) rfl
  revert hends
  rw [RegionEnds]
  decide

end MiniOS.Memory
