import MiniOS.Basic
import MiniOS.Lib.Ring
import MiniOS.Lib.Run

/-!
# The keyboard queue

The interrupt handler enqueues and the main loop pops, one statement at a time. The
queue is a FIFO of up to 255 bytes, wherever an interrupt lands.
-/

open MiniOS.Lib

namespace MiniOS.Chat

abbrev KBD_RING_SZ : Nat := 256

structure Queue where
  kbd_ring : Vector Byte KBD_RING_SZ
  kbd_head : Byte
  kbd_tail : Byte

def chat_kbd_enqueue (q : Queue) (c : Byte) : Queue :=
  let next := (q.kbd_tail.setWidth 32 + 1#32) % BitVec.ofNat 32 KBD_RING_SZ
  if next = q.kbd_head.setWidth 32 then q
  else
    { q with
      kbd_ring := q.kbd_ring.set q.kbd_tail.toNat c q.kbd_tail.isLt
      kbd_tail := next.setWidth 8 }

def Queue.advance (q : Queue) : Queue :=
  { q with kbd_head := ((q.kbd_head.setWidth 32 + 1#32) % BitVec.ofNat 32 KBD_RING_SZ).setWidth 8 }

/-- The statements of `kbd_pop`. `sti` is the last one of each of its two paths. -/
inductive Pop
  | cli
  | compare
  | read
  | advance (c : Byte)
  | sti (ret : Option Byte)

inductive After
  | next (pc : Pop)
  | returned (ret : Option Byte)

def kbd_pop (pc : Pop) (q : Queue) (interrupts : Bool) : After × Queue × Bool :=
  match pc with
  | .cli => (.next .compare, q, false)
  | .compare => (.next (if q.kbd_head = q.kbd_tail then .sti none else .read), q, interrupts)
  | .read => (.next (.advance (q.kbd_ring.get q.kbd_head.toFin)), q, interrupts)
  | .advance c => (.next (.sti (some c)), q.advance, interrupts)
  | .sti ret => (.returned ret, q, true)

/-! ## The queue is a ring -/

def Queue.ring (q : Queue) : Ring Byte KBD_RING_SZ := ⟨q.kbd_ring, q.kbd_head.toFin, q.kbd_tail.toFin⟩

def Queue.pending (q : Queue) : List Byte := q.ring.contents

/-- The enqueue stores its byte: the tail moves. -/
def Queue.Accepts (q : Queue) (c : Byte) : Prop := (chat_kbd_enqueue q c).kbd_tail ≠ q.kbd_tail

instance (q : Queue) (c : Byte) : Decidable (q.Accepts c) := inferInstanceAs (Decidable (_ ≠ _))

theorem next_toNat (i : Byte) :
    ((i.setWidth 32 + 1#32) % BitVec.ofNat 32 KBD_RING_SZ).toNat = (i.toNat + 1) % 256 := by
  have := i.isLt
  simp only [KBD_RING_SZ, BitVec.toNat_umod, BitVec.toNat_add, BitVec.toNat_setWidth,
    BitVec.toNat_ofNat, Nat.reducePow, Nat.reduceMod]
  omega

theorem next_toFin (i : Byte) :
    (((i.setWidth 32 + 1#32) % BitVec.ofNat 32 KBD_RING_SZ).setWidth 8).toFin =
      (Ring.next (i.toFin : Fin KBD_RING_SZ)) := by
  apply Fin.ext
  simp only [BitVec.val_toFin, BitVec.toNat_setWidth, next_toNat, Ring.next]
  omega

theorem full_iff_next (q : Queue) :
    (q.kbd_tail.setWidth 32 + 1#32) % BitVec.ofNat 32 KBD_RING_SZ = q.kbd_head.setWidth 32 ↔
      q.ring.full := by
  have := q.kbd_head.isLt
  unfold Ring.full
  rw [← BitVec.toNat_inj, next_toNat, Fin.ext_iff]
  simp only [KBD_RING_SZ, Queue.ring, Ring.next, BitVec.val_toFin, BitVec.toNat_setWidth]
  omega

theorem chat_kbd_enqueue_full {q : Queue} (h : q.ring.full) (c : Byte) :
    chat_kbd_enqueue q c = q := if_pos ((full_iff_next q).mpr h)

theorem chat_kbd_enqueue_store {q : Queue} (h : ¬ q.ring.full) (c : Byte) :
    (chat_kbd_enqueue q c).ring = q.ring.store c := by
  unfold chat_kbd_enqueue
  rw [if_neg (fun hn => h ((full_iff_next q).mp hn))]
  simp only [Queue.ring, Ring.store, next_toFin]
  rfl

theorem accepts_iff_not_full (q : Queue) (c : Byte) : q.Accepts c ↔ ¬ q.ring.full := by
  unfold Queue.Accepts
  by_cases h : q.ring.full
  · simp [chat_kbd_enqueue_full h, h]
  · have htail : (chat_kbd_enqueue q c).kbd_tail.toFin = Ring.next q.ring.tail :=
      congrArg Ring.tail (chat_kbd_enqueue_store h c)
    simp only [h, not_false_eq_true, iff_true]
    intro heq
    rw [heq, Fin.ext_iff, Ring.next_val] at htail
    have : q.ring.tail.val = q.kbd_tail.toNat := rfl
    split at htail <;> simp only [BitVec.val_toFin] at htail <;> omega

/-- One slot stays free. -/
theorem accepts_iff (q : Queue) (c : Byte) : q.Accepts c ↔ q.pending.length < 255 := by
  have hlt : q.ring.count < 256 := q.ring.count_lt
  unfold Queue.pending
  rw [accepts_iff_not_full, Ring.full_iff, Ring.length_contents]
  show ¬ q.ring.count + 1 = 256 ↔ _
  omega

theorem chat_kbd_enqueue_rejected {q : Queue} {c : Byte} (h : ¬ q.Accepts c) :
    chat_kbd_enqueue q c = q := by
  rw [accepts_iff_not_full, not_not] at h
  exact chat_kbd_enqueue_full h c

theorem pending_enqueue {q : Queue} {c : Byte} (h : q.Accepts c) :
    (chat_kbd_enqueue q c).pending = q.pending ++ [c] := by
  rw [accepts_iff_not_full] at h
  unfold Queue.pending
  rw [chat_kbd_enqueue_store h]
  exact Ring.contents_store h c

theorem head_eq_tail (q : Queue) : q.ring.head = q.ring.tail ↔ q.kbd_head = q.kbd_tail := by
  show q.kbd_head.toFin = q.kbd_tail.toFin ↔ _
  exact BitVec.toFin_inj

theorem pending_eq_nil (q : Queue) : q.pending = [] ↔ q.kbd_head = q.kbd_tail :=
  q.ring.contents_eq_nil.trans (head_eq_tail q)

theorem pending_advance {q : Queue} (h : q.kbd_head ≠ q.kbd_tail) :
    q.pending = q.kbd_ring.get q.kbd_head.toFin :: q.advance.pending := by
  have hring : q.advance.ring = q.ring.advance := by
    simp only [Queue.advance, Queue.ring, Ring.advance, next_toFin]
  unfold Queue.pending
  rw [hring]
  exact Ring.contents_advance (mt (head_eq_tail q).mp h)

end MiniOS.Chat
