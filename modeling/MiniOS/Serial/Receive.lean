import MiniOS.Serial.Driver

/-!
# What is read has arrived

`serial_read_byte` gives the bytes of the line in their order, and never one that did not come.
-/

open MiniOS.Lib

namespace MiniOS.Serial

/-- The bytes that found room. -/
def kept (heard : List (Byte × Nat)) : List Byte := (heard.filter (·.2 < 16)).map Prod.fst

theorem kept_append (xs ys : List (Byte × Nat)) : kept (xs ++ ys) = kept xs ++ kept ys := by
  unfold kept
  rw [List.filter_append, List.map_append]

theorem accept_fifos {u : Uart} (h : u.config.fifos = true) (q : List Byte) (b : Byte) :
    u.accept q b = q ++ kept [(b, q.length)] := by
  unfold Uart.accept Config.depth kept
  rw [h, if_pos rfl, if_pos rfl, List.filter_singleton]
  by_cases hlt : q.length < 16
  · rw [if_pos hlt, decide_eq_true hlt]
    rfl
  · rw [if_neg hlt, decide_eq_false hlt]
    exact (List.append_nil q).symm

theorem lineStatus_data (u : Uart) : u.lineStatus &&& 0x01#8 ≠ 0#8 ↔ u.rx ≠ [] := by
  unfold Uart.lineStatus
  by_cases hrx : u.rx = []
  · simp only [hrx, if_true]
    split <;> split <;> split <;> simp
  · simp only [hrx, if_false, ne_eq, not_false_eq_true, iff_true]
    split <;> split <;> split <;> decide

theorem cleared_rx (u : Uart) : (u.out UART_FIFO_CTRL 0xC7#8).rx = [] := by
  show u.cleared 0xC7#8 1 u.rx = []
  unfold Uart.cleared
  rw [if_pos (Or.inr ⟨rfl, rfl⟩)]

theorem inp_data {u : Uart} (h : u.config.dlab = false) (junk : Byte) :
    u.inp junk UART_DATA = (u.rx.headD junk, { u with rx := u.rx.tail }) := by
  unfold Uart.inp
  rw [if_neg (by decide), if_pos ⟨rfl, h⟩]

structure Driver.Reading (s : Driver) : Prop where
  short : 6 ≤ s.control.done → s.uart.rx.length ≤ 16
  ready : s.control = .serial_read_byte → s.uart.rx ≠ []

theorem hear_short {u : Uart} (hfifos : u.config.fifos = true) (h : u.rx.length ≤ 16) (b : Byte) :
    (u.hear b).rx.length ≤ 16 ∧ (u.rx ≠ [] → (u.hear b).rx ≠ []) := by
  show (u.accept u.rx b).length ≤ 16 ∧ (u.rx ≠ [] → u.accept u.rx b ≠ [])
  unfold Uart.accept Config.depth
  rw [hfifos, if_pos rfl, if_pos rfl]
  split
  · refine ⟨?_, fun _ => List.append_ne_nil_of_right_ne_nil _ (List.cons_ne_nil b [])⟩
    rw [List.length_append, List.length_singleton]
    assumption
  · exact ⟨h, id⟩

/-- A step that leaves alone what waits, or goes on from where the FIFO was. -/
theorem Driver.Reading.keep {s t : Driver} (h : s.Reading) (hs : 6 ≤ s.control.done)
    (hrx : t.uart.rx = s.uart.rx) (hready : t.control = .serial_read_byte → s.uart.rx ≠ []) :
    t.Reading :=
  ⟨fun _ => hrx ▸ h.short hs, fun ht => hrx ▸ hready ht⟩

theorem Driver.Reading.chip {c : Config} {s : Driver} (h : s.Reading) (hc : s.SetUp c) {u : Uart}
    (hm : s.uart.Move u) : Driver.Reading { s with uart := u } := by
  have hdone : s.control = .serial_read_byte → 6 ≤ s.control.done := fun hk => by
    rw [hk]
    decide
  cases hm with
  | load => exact ⟨h.short, h.ready⟩
  | send => exact ⟨h.short, h.ready⟩
  | @loop b =>
    have hhear := fun hd => hear_short (u := { s.uart with shift := none }) (hc.cleared hd).1 (h.short hd)
      (s.uart.config.frame b).data
    exact ⟨fun hd => (hhear hd).1, fun hk => (hhear (hdone hk)).2 (h.ready hk)⟩
  | hear b =>
    have hhear := fun hd => hear_short (hc.cleared hd).1 (h.short hd) b
    exact ⟨fun hd => (hhear hd).1, fun hk => (hhear (hdone hk)).2 (h.ready hk)⟩

theorem Driver.Reading.step {c : Config} {s t : Driver} {l : Label} (h : s.Reading) (hc : s.SetUp c)
    (hs : Step s l t) : t.Reading := by
  cases hs with
  | @setup k port data hk hw =>
    have hlt := hc.setup_lt k hk
    refine ⟨fun hd => ?_, fun hread => ?_⟩
    · have hd' : 6 ≤ k + 1 := by
        dsimp only at hd
        split at hd
        · exact hd
        · exact Nat.le_of_lt (Nat.not_lt.mp ‹_›)
      have hlt' : k < 7 := hlt
      obtain rfl | rfl : k = 5 ∨ k = 6 := by omega
      · obtain ⟨rfl, rfl⟩ := Prod.mk.inj (Option.some.inj hw)
        exact (congrArg List.length (cleared_rx s.uart)).trans_le (Nat.zero_le 16)
      · obtain ⟨rfl, rfl⟩ := Prod.mk.inj (Option.some.inj hw)
        exact h.short (by rw [hk]; exact le_rfl)
    · dsimp only at hread
      split at hread <;> cases hread
  | print mensagem hk => exact h.keep (by rw [hk]; exact Nat.le_succ 6) rfl nofun
  | test hk =>
    refine h.keep (by rw [hk]; exact Nat.le_succ 6) rfl fun hread => ?_
    dsimp only at hread
    split at hread <;> cases hread
  | poll junk hk =>
    refine h.keep (by rw [hk]; exact Nat.le_succ 6) rfl fun hread => ?_
    dsimp only at hread
    split at hread <;> cases hread
  | write hk => exact h.keep (by rw [hk]; exact Nat.le_succ 6) rfl nofun
  | rx_ready junk hk =>
    refine h.keep (by rw [hk]; exact Nat.le_succ 6) rfl fun hread => ?_
    dsimp only at hread
    split at hread
    · exact (lineStatus_data s.uart).mp ‹_›
    · cases hread
  | read junk hk =>
    have hd : 6 ≤ s.control.done := by
      rw [hk]
      decide
    refine ⟨fun _ => ?_, nofun⟩
    dsimp only
    rw [inp_data (hc.cleared hd).2]
    exact (List.length_tail.trans_le (Nat.sub_le _ 1)).trans (h.short hd)
  | chip hm => exact h.chip hc hm

theorem Driver.reading_run {u₀ : Uart} {ls : List Label} {s : Driver}
    (h : Run Step ⟨u₀, .setup 0, [], []⟩ ls s) : s.Reading :=
  (h.state_inv (fun s => s.SetUp u₀.config ∧ s.Reading)
    ⟨Driver.setUp_run .nil, ⟨fun hd => absurd hd (Nat.not_succ_le_zero 5), nofun⟩⟩
    fun _ _ _ h hs => ⟨h.1.step hs, h.2.step h.1 hs⟩).2

/-- What one step adds to what has arrived is added to what has been read or waits. -/
structure Received (s t : Driver) (new : List (Byte × Nat)) : Prop where
  heard : t.uart.heard = s.uart.heard ++ new
  taken : t.got ++ t.uart.rx = s.got ++ s.uart.rx ++ kept new

theorem Received.same {s t : Driver} (hheard : t.uart.heard = s.uart.heard) (hgot : t.got = s.got)
    (hrx : t.uart.rx = s.uart.rx) : Received s t [] := by
  refine ⟨?_, ?_⟩
  · rw [hheard, List.append_nil]
  · rw [hgot, hrx]
    exact (List.append_nil _).symm

theorem Received.step {c : Config} {s t : Driver} {l : Label} (hc : s.SetUp c) (h : s.Reading)
    (hpast : s.control.past = true) (hs : Step s l t) : ∃ new, Received s t new := by
  have hdone := (Nat.le_of_lt (Control.past_done hpast).ge)
  obtain ⟨hfifos, hdlab⟩ := hc.cleared hdone
  cases hs with
  | setup hk =>
    rw [hk] at hpast
    cases hpast
  | print => exact ⟨[], .same rfl rfl rfl⟩
  | test => exact ⟨[], .same rfl rfl rfl⟩
  | poll => exact ⟨[], .same rfl rfl rfl⟩
  | write => exact ⟨[], .same rfl rfl rfl⟩
  | rx_ready => exact ⟨[], .same rfl rfl rfl⟩
  | read junk hk =>
    obtain ⟨b, rx, hrx⟩ := List.exists_cons_of_ne_nil (h.ready hk)
    refine ⟨[], ?_, ?_⟩
    · dsimp only
      rw [inp_data hdlab, List.append_nil]
    · dsimp only
      rw [inp_data hdlab, hrx]
      show (s.got ++ [b]) ++ rx = s.got ++ (b :: rx) ++ []
      rw [List.append_nil, List.append_assoc]
      rfl
  | chip hm =>
    cases hm with
    | load => exact ⟨[], .same rfl rfl rfl⟩
    | send => exact ⟨[], .same rfl rfl rfl⟩
    | loop _ hloop => exact absurd (hloop.symm.trans (hc.loopback hpast)) (by decide)
    | hear b =>
      refine ⟨[(b, s.uart.rx.length)], rfl, ?_⟩
      show s.got ++ s.uart.accept s.uart.rx b = _
      rw [accept_fifos hfifos, List.append_assoc]

theorem Received.trans {s t v : Driver} {new more : List (Byte × Nat)} (h : Received s t new)
    (h' : Received t v more) : Received s v (new ++ more) := by
  refine ⟨?_, ?_⟩
  · rw [h'.heard, h.heard, List.append_assoc]
  · rw [h'.taken, h.taken, kept_append, List.append_assoc]

/-- **What is read is what came, in order.** From any state after `serial_initialize` on, every byte that
comes while fewer than 16 wait is read once and in its turn, or still waits; nothing else is read. A read
after `serial_rx_ready` always finds a byte, whatever comes in between. -/
theorem read_in_order {u₀ : Uart} {ls ms : List Label} {s t : Driver}
    (h : Run Step ⟨u₀, .setup 0, [], []⟩ ls s) (hs : s.control.past = true) (hm : Run Step s ms t) :
    (∃ new, t.uart.heard = s.uart.heard ++ new ∧
      t.got ++ t.uart.rx = s.got ++ s.uart.rx ++ kept new) ∧
      t.uart.rx.length ≤ 16 ∧
      (t.control = .serial_read_byte →
        ∃ b rx, t.uart.rx = b :: rx ∧
          ∀ v, Step t .read v → v.got = t.got ++ [b] ∧ v.uart.rx = rx) := by
  have hpast : t.control.past = true ∧ ∃ new, Received s t new := by
    induction hm with
    | nil => exact ⟨hs, [], .same rfl rfl rfl⟩
    | snoc hm hstep ih =>
      obtain ⟨hpast, new, hnew⟩ := ih
      obtain ⟨more, hmore⟩ := Received.step (Driver.setUp_run (h.append hm))
        (Driver.reading_run (h.append hm)) hpast hstep
      exact ⟨hstep.past hpast, new ++ more, hnew.trans hmore⟩
  obtain ⟨hpast, new, hheard, htaken⟩ := hpast
  have hread := Driver.reading_run (h.append hm)
  have hdone := Nat.le_of_lt (Control.past_done hpast).ge
  refine ⟨⟨new, hheard, htaken⟩, hread.short hdone, fun hk => ?_⟩
  obtain ⟨b, rx, hrx⟩ := List.exists_cons_of_ne_nil (hread.ready hk)
  have hdlab := ((Driver.setUp_run (h.append hm)).cleared hdone).2
  refine ⟨b, rx, hrx, fun v hv => ?_⟩
  cases hv with
  | read junk _ =>
    dsimp only
    rw [inp_data hdlab, hrx]
    exact ⟨rfl, rfl⟩

/-- Two bytes come, and the kernel reads the first. -/
theorem read_in_order_letters :
    ∃ s t, Run Step s [.chip, .chip, .rx_ready, .read] t ∧ t.got = [0x4F#8] ∧ t.uart.rx = [0x4B#8] ∧
      ∃ new, t.uart.heard = s.uart.heard ++ new ∧ t.got ++ t.uart.rx = s.got ++ s.uart.rx ++ kept new := by
  have hread : Run Step ⟨(List.take 7 serial_initialize).foldl (fun u w => u.out w.1 w.2) asReset, .idle, [], []⟩
      [.chip, .chip, .rx_ready, .read] _ :=
    (((Run.nil.snoc (.chip (.hear 0x4F#8 rfl))).snoc (.chip (.hear 0x4B#8 rfl))).snoc
      (.rx_ready 0#8 rfl)).snoc (.read 0#8 rfl)
  exact ⟨_, _, hread, by decide, by decide, (read_in_order (setup_run asReset le_rfl) rfl hread).1⟩

end MiniOS.Serial
