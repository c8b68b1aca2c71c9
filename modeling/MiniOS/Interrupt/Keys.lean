import MiniOS.Interrupt.Line

/-!
# Which keys are noticed

`keyboard_handler` leaves no byte behind, so the line falls and can rise again. `pic_remap` must find no byte.
-/

open MiniOS.Lib

namespace MiniOS.Interrupt

section
variable {mask1 mask2 : Byte} {w t : Wired} {l : Wired.Label}

/-! ## The line -/

/-- The handler will look at the controller again. -/
def Wired.Draining (w : Wired) : Prop :=
  ∃ v, w.handler = some (v, .status) ∨ w.handler = some (v, .read_scan_code)

/-- A byte that waits has asked for the handler, or the handler will find it. -/
def Wired.Heard (w : Wired) : Prop := w.output ≠ none → w.asked = true ∨ w.Draining

/-- The handler has not run for the keyboard. -/
structure Wired.Deaf (w : Wired) : Prop where
  read : w.read = []
  handler : ¬w.Draining

/-- The line stays up, and the master has not seen it rise. -/
structure Wired.Stuck (w : Wired) : Prop where
  asked : w.asked = false
  output : w.output ≠ none

theorem Wired.Draining.not_rest {vector : Byte} {p : Action Unit}
    (h : w.handler = some (vector, .rest p)) : ¬w.Draining := by
  rintro ⟨v, hv | hv⟩
  all_goals
    rw [h] at hv
    cases hv

theorem Wired.Draining.not_none (h : w.handler = none) : ¬w.Draining := by
  rintro ⟨v, hv | hv⟩
  all_goals
    rw [h] at hv
    cases hv

theorem Wired.Heard.step (h : w.Heard) (hw : w.Sound mask1 mask2) (hs : Wired.Step w l t) : t.Heard := by
  cases hs with
  | key b => exact h
  | fill => exact fun _ => Or.inl rfl
  | fall hout => exact fun hne => absurd hout hne
  | kernel hk hnone =>
    have hsettles := hw.main hnone
    rw [hk] at hsettles
    rw [Wired.perform_keeps hsettles.stmt.1]
    exact h
  | flag => exact h
  | chat => exact h
  | @request r vector d hset hd hasked =>
    intro hne
    obtain ⟨-, hstatus, -⟩ := hw.request hset hd
    by_cases hline : r.irq = 1
    · exact Or.inr ⟨vector, Or.inl (by rw [← hstatus.mpr hline])⟩
    · refine Or.inl ((if_neg hline).trans ((h hne).resolve_right ?_))
      exact Wired.Draining.not_none (hw.closed hset).1
  | @status vector hh =>
    intro hne
    refine Or.inr ⟨vector, Or.inr ?_⟩
    show some (vector, if w.output.isSome then _ else _) = _
    rw [if_pos (Option.isSome_iff_ne_none.mpr hne)]
  | read => exact fun hne => absurd rfl hne
  | statement hh =>
    rw [Wired.perform_keeps (Settles.stmt (hw.busy _ _ hh).2).1]
    exact fun hne => Or.inl ((h hne).resolve_right (Wired.Draining.not_rest hh))
  | iret hh => exact fun hne => Or.inl ((h hne).resolve_right (Wired.Draining.not_rest hh))

theorem Wired.Deaf.step (h : w.Deaf) (hw : w.Sound mask1 mask2) (hs : Wired.Step w l t)
    (hl : ∀ r, l = .request r → r.irq ≠ 1) : t.Deaf := by
  obtain ⟨hread, hdrain⟩ := h
  cases hs with
  | @request r vector d hset hd hline =>
    obtain ⟨-, hstatus, hnot⟩ := hw.request hset hd
    refine ⟨hread, ?_⟩
    rintro ⟨v, hv | hv⟩
    · exact hl r rfl (hstatus.mp (Prod.mk.inj (Option.some.inj hv)).2)
    · exact hnot (Prod.mk.inj (Option.some.inj hv)).2
  | status hh => exact absurd ⟨_, Or.inl hh⟩ hdrain
  | read _ hh => exact absurd ⟨_, Or.inr hh⟩ hdrain
  | statement hh => exact ⟨hread, Wired.Draining.not_rest rfl⟩
  | iret hh => exact ⟨hread, Wired.Draining.not_none rfl⟩
  | _ => exact ⟨hread, hdrain⟩

theorem Wired.Stuck.step (h : w.Stuck) (hdeaf : w.Deaf) (hw : w.Sound mask1 mask2)
    (hs : Wired.Step w l t) : t.Stuck ∧ ∀ r, l = .request r → r.irq ≠ 1 := by
  obtain ⟨hasked, hout⟩ := h
  cases hs with
  | fill _ hempty => exact absurd hempty hout
  | fall hempty => exact absurd hempty hout
  | kernel hk hnone =>
    have hsettles := hw.main hnone
    rw [hk] at hsettles
    rw [Wired.perform_keeps hsettles.stmt.1]
    exact ⟨⟨hasked, hout⟩, nofun⟩
  | @request r vector d hset hd hline =>
    have hother : r.irq ≠ 1 := fun h1 => absurd (hasked.symm.trans (hline h1)) (by decide)
    refine ⟨⟨(if_neg hother).trans hasked, hout⟩, fun r' hr' => ?_⟩
    obtain rfl := Wired.Label.request.inj hr'
    exact hother
  | status hh => exact absurd ⟨_, Or.inl hh⟩ hdeaf.handler
  | read _ hh => exact absurd ⟨_, Or.inr hh⟩ hdeaf.handler
  | statement hh =>
    rw [Wired.perform_keeps (Settles.stmt (hw.busy _ _ hh).2).1]
    exact ⟨⟨hasked, hout⟩, nofun⟩
  | _ => exact ⟨⟨hasked, hout⟩, nofun⟩

theorem Wired.Sound.masked (hw : w.Sound mask1 mask2) (hmask : mask1.getLsbD 1 = true)
    (hs : Wired.Step w l t) : ∀ r, l = .request r → r.irq ≠ 1 := by
  intro r hr hline
  obtain rfl := irq_eq_one hline
  subst hr
  cases hs with
  | request hset hd =>
    obtain ⟨hsetup, hidle⟩ := hw.ready hset
    have hblocked : ¬(Request.master 1 (by decide)).Unmasked mask1 mask2 :=
      fun hopen => absurd (hmask.symm.trans hopen) (by decide)
    exact hblocked (deliver_some hsetup hidle hd).1

theorem Wired.Sound.missed (hw : w.Sound mask1 mask2) (hs : Wired.Step w l t) : t.missed = w.missed := by
  cases hs with
  | kernel hk hnone =>
    have hsettles := hw.main hnone
    rw [hk] at hsettles
    rw [Wired.perform_keeps hsettles.stmt.1]
  | statement hh => rw [Wired.perform_keeps (Settles.stmt (hw.busy _ _ hh).2).1]
  | _ => rfl

/-! ## From `pic_remap` on -/

/-- Before ICW1. The flag is clear since the processor was handed over. -/
structure Wired.Early (d : Device) (w : Wired) : Prop where
  device : w.device = d
  interrupts : w.interrupts = false
  handler : w.handler = none
  read : w.read = []
  missed : w.missed = false
  kernel : w.kernel = pic_remap ∨ w.kernel = remapMask1 d.master.imr ∨
    w.kernel = remapMasked d.master.imr d.slave.imr

/-- From ICW1 on. -/
structure Wired.Late (mask1 mask2 : Byte) (w : Wired) : Prop where
  sound : w.Sound mask1 mask2
  heard : w.missed = false → w.Heard
  stuck : w.missed = true → w.Stuck
  deaf : w.missed = true ∨ mask1.getLsbD 1 = true → w.Deaf

theorem Wired.Late.step (h : w.Late mask1 mask2) (hs : Wired.Step w l t) :
    t.Late mask1 mask2 ∧
      (w.missed = true ∨ mask1.getLsbD 1 = true → ∀ r, l = .request r → r.irq ≠ 1) := by
  obtain ⟨hsound, hheard, hstuck, hdeaf⟩ := h
  have hmissed := hsound.missed hs
  have hquiet : w.missed = true ∨ mask1.getLsbD 1 = true → ∀ r, l = .request r → r.irq ≠ 1 := by
    rintro (h | h)
    · exact ((hstuck h).step (hdeaf (Or.inl h)) hsound hs).2
    · exact hsound.masked h hs
  refine ⟨⟨hsound.step hs, ?_, ?_, ?_⟩, hquiet⟩ <;> rw [hmissed] <;> intro h
  · exact (hheard h).step hsound hs
  · exact ((hstuck h).step (hdeaf (Or.inl h)) hsound hs).1
  · exact (hdeaf h).step hsound hs (hquiet h)

theorem Wired.Early.kernel_stmt {d : Device} (h : w.Early d) : w.kernel ≠ .ret () := by
  rcases h.kernel with hk | hk | hk
  all_goals
    rw [hk]
    exact nofun

theorem restart_sound (d : Device) :
    Settles d.master.imr d.slave.imr (remapRest d.master.imr d.slave.imr) (d.out PIC1_COMMAND ICW1_INIT) := by
  obtain ⟨t, hrun, ht⟩ := pic_remap_spec d
  exact ⟨remapRest_keeps _ _, (), t, hrun, ht⟩

/-- ICW1: a byte that waits will never be noticed, any other will. -/
theorem Wired.restarted (w : Wired) (hclear : w.interrupts = false) (hnone : w.handler = none)
    (hread : w.read = []) :
    Wired.Late w.device.master.imr w.device.slave.imr
      { w.perform (fun d => d.out PIC1_COMMAND ICW1_INIT) with
        kernel := remapRest w.device.master.imr w.device.slave.imr } := by
  have hrestarts : Restarts w.device (w.device.out PIC1_COMMAND ICW1_INIT) := out_written _ _ _
  unfold Wired.perform
  rw [if_pos hrestarts, if_pos hrestarts]
  refine ⟨⟨fun _ => restart_sound w.device, fun v a ha => ?_, fun hset => ?_⟩, fun hmissed hne => ?_,
    fun hmissed => ⟨rfl, Option.isSome_iff_ne_none.mp hmissed⟩,
    fun _ => ⟨hread, Wired.Draining.not_none hnone⟩⟩
  · exact absurd (hnone.symm.trans ha) nofun
  · exact absurd (hclear.symm.trans hset) (by decide)
  · exact absurd (hmissed.symm.trans (Option.isSome_iff_ne_none.mpr hne)) (by decide)

theorem Wired.Early.step {d : Device} (h : w.Early d) (hs : Wired.Step w l t) :
    (t.Early d ∨ t.Late d.master.imr d.slave.imr) ∧ ∀ r, l ≠ .request r := by
  have hstmt := h.kernel_stmt
  obtain ⟨rfl, hclear, hnone, hread, hmissed, hkernel⟩ := h
  cases hs with
  | key b => exact ⟨Or.inl ⟨rfl, hclear, hnone, hread, hmissed, hkernel⟩, nofun⟩
  | fill => exact ⟨Or.inl ⟨rfl, hclear, hnone, hread, hmissed, hkernel⟩, nofun⟩
  | fall => exact ⟨Or.inl ⟨rfl, hclear, hnone, hread, hmissed, hkernel⟩, nofun⟩
  | kernel hk _ =>
    refine ⟨?_, nofun⟩
    have hsame : w.perform id = w := Wired.perform_keeps (keeps_id w.device)
    rcases hkernel with hp | hp | hp
    · rw [hk] at hp
      obtain ⟨rfl, rfl⟩ := Prog.stmt.inj hp
      rw [hsame]
      exact Or.inl ⟨rfl, hclear, hnone, hread, hmissed, Or.inr (Or.inl rfl)⟩
    · rw [hk] at hp
      obtain ⟨rfl, rfl⟩ := Prog.stmt.inj hp
      rw [hsame]
      exact Or.inl ⟨rfl, hclear, hnone, hread, hmissed, Or.inr (Or.inr rfl)⟩
    · rw [hk] at hp
      obtain ⟨rfl, rfl⟩ := Prog.stmt.inj hp
      exact Or.inr (w.restarted hclear hnone hread)
  | flag _ hk => exact absurd hk hstmt
  | chat _ hk => exact absurd hk hstmt
  | request hset => exact absurd (hclear.symm.trans hset) (by decide)
  | status hh => exact absurd (hnone.symm.trans hh) nofun
  | read _ hh => exact absurd (hnone.symm.trans hh) nofun
  | statement hh => exact absurd (hnone.symm.trans hh) nofun
  | iret hh => exact absurd (hnone.symm.trans hh) nofun

def Wired.Label.code : Wired.Label → Option Byte
  | .key b => some b
  | _ => none

def pressed (ls : List Wired.Label) : List Byte := ls.filterMap Wired.Label.code

theorem pressed_snoc (ls : List Wired.Label) (l : Wired.Label) :
    pressed (ls ++ [l]) = pressed ls ++ l.code.toList := by
  unfold pressed
  rw [List.filterMap_append]
  cases h : l.code <;> simp [h]

/-- Read, or still to be read. -/
def Wired.codes (w : Wired) : List Byte := w.read ++ w.output.toList ++ w.keys

/-- The handler reads the controller only with a byte in it. -/
def Wired.Loaded (w : Wired) : Prop := ∀ v, w.handler = some (v, .read_scan_code) → w.output ≠ none

theorem Wired.Loaded.codes (h : w.Loaded) (hs : Wired.Step w l t) : t.codes = w.codes ++ l.code.toList := by
  cases hs with
  | key b => exact (List.append_assoc _ _ _).symm
  | @fill b keys hkeys hout =>
    unfold Wired.codes
    rw [hkeys, hout]
    show w.read ++ [b] ++ keys = w.read ++ [] ++ b :: keys ++ []
    simp
  | @read junk vector hh =>
    obtain ⟨b, hb⟩ := Option.ne_none_iff_exists'.mp (h _ hh)
    unfold Wired.codes
    rw [hb]
    show w.read ++ [b] ++ [] ++ w.keys = w.read ++ [b] ++ w.keys ++ []
    simp
  | _ => exact (List.append_nil _).symm

theorem Wired.Sound.loaded (h : w.Sound mask1 mask2) : w.Loaded := fun _ hh => (h.busy _ _ hh).2.2.2

theorem Wired.Early.loaded {d : Device} (h : w.Early d) : w.Loaded := fun _ hh =>
  absurd (h.handler.symm.trans hh) nofun

structure Wired.Inv (d : Device) (codes : List Byte) (ls : List Wired.Label) (w : Wired) : Prop where
  phase : (w.Early d ∧ ∀ r, .request r ∉ ls) ∨
    w.Late d.master.imr d.slave.imr ∧
      (w.missed = true ∨ d.master.imr.getLsbD 1 = true → ∀ r, .request r ∈ ls → r.irq ≠ 1)
  codes : w.codes = codes ++ pressed ls

theorem Wired.Inv.step {d : Device} {codes : List Byte} {ls : List Wired.Label} (h : w.Inv d codes ls)
    (hs : Wired.Step w l t) : t.Inv d codes (ls ++ [l]) := by
  obtain ⟨hphase, hcodes⟩ := h
  have hloaded : w.Loaded := hphase.elim (fun h => h.1.loaded) fun h => h.1.sound.loaded
  refine ⟨?_, ?_⟩
  · rcases hphase with ⟨hearly, hquiet⟩ | ⟨hlate, hquiet⟩
    · obtain ⟨hnext, hl⟩ := hearly.step hs
      have hnone : ∀ r, Wired.Label.request r ∉ ls ++ [l] := fun r hr =>
        (List.mem_append.mp hr).elim (hquiet r) fun hr => hl r (List.mem_singleton.mp hr).symm
      exact hnext.imp (⟨·, hnone⟩) (⟨·, fun _ r hr => absurd hr (hnone r)⟩)
    · obtain ⟨hnext, hl⟩ := hlate.step hs
      refine Or.inr ⟨hnext, fun h r hr => ?_⟩
      rw [hlate.sound.missed hs] at h
      exact (List.mem_append.mp hr).elim (hquiet h r) fun hr => hl h r (List.mem_singleton.mp hr).symm
  · rw [hloaded.codes hs, hcodes, pressed_snoc, List.append_assoc]

theorem Wired.inv_run {d : Device} {keys : List Byte} {output : Option Byte} {asked : Bool}
    {ls : List Wired.Label} (h : Run Wired.Step (.start d keys output asked) ls w) :
    w.Inv d (output.toList ++ keys) ls := by
  refine h.inv (fun ls w => w.Inv d (output.toList ++ keys) ls) ⟨Or.inl ⟨?_, nofun⟩, ?_⟩
    fun _ _ _ _ h hs => h.step hs
  · exact ⟨rfl, rfl, rfl, rfl, rfl, Or.inl rfl⟩
  · exact (List.append_nil _).symm

theorem Wired.Inv.late {d : Device} {codes : List Byte} {ls : List Wired.Label} (h : w.Inv d codes ls)
    (hdone : w.kernel = .ret ()) : w.Late d.master.imr d.slave.imr ∧
      (w.missed = true ∨ d.master.imr.getLsbD 1 = true → ∀ r, .request r ∈ ls → r.irq ≠ 1) :=
  h.phase.resolve_left fun h => h.1.kernel_stmt hdone

/-- A byte in the controller, the line open and the flag set: the CPU can be asked. -/
theorem Wired.Late.can_ask (h : w.Late mask1 mask2) (hmissed : w.missed = false)
    (hopen : mask1.getLsbD 1 = false) (hout : w.output ≠ none) (hset : w.interrupts = true) :
    ∃ d, Wired.Step w (.request (.master 1 (by decide)))
      { w with device := d, asked := false, interrupts := false, handler := some (33#8, .status) } := by
  obtain ⟨hsetup, hidle⟩ := h.sound.ready hset
  have hasked := (h.heard hmissed hout).resolve_right
    (Wired.Draining.not_none (h.sound.closed hset).1)
  exact ⟨_, .request hset (deliver_unmasked hsetup hidle hopen) fun _ => hasked⟩

/-- **No key is forgotten, or all are.** Take `pic_remap`, the handlers and the kernel in any order with the
keyboard, its controller and other requests. Every code is read once and in order, or still waits. If no
byte waited when `pic_remap` wrote ICW1 to the master and line 1 is not masked, the CPU can be asked for
every byte that waits while the flag is set. If one did, or the line is masked, nothing is ever read. -/
theorem keys_noticed {d : Device} {keys : List Byte} {output : Option Byte} {asked : Bool}
    {ls : List Wired.Label} (h : Run Wired.Step (.start d keys output asked) ls w)
    (hdone : w.kernel = .ret ()) :
    w.read ++ w.output.toList ++ w.keys = output.toList ++ keys ++ pressed ls ∧
      (∀ v, w.handler = some (v, .read_scan_code) → w.output ≠ none) ∧
      (w.missed = false → d.master.imr.getLsbD 1 = false → w.output ≠ none → w.interrupts = true →
        ∃ t, Wired.Step w (.request (.master 1 (by decide))) t) ∧
      (w.missed = true ∨ d.master.imr.getLsbD 1 = true →
        w.read = [] ∧ ∀ r, .request r ∈ ls → r.irq ≠ 1) := by
  have hinv := Wired.inv_run h
  obtain ⟨hlate, hquiet⟩ := hinv.late hdone
  refine ⟨hinv.codes, hlate.sound.loaded, fun hmissed hopen hout hset => ?_, fun h => ?_⟩
  · obtain ⟨t, ht⟩ := hlate.can_ask hmissed hopen hout hset
    exact ⟨_, ht⟩
  · exact ⟨(hlate.deaf h).read, hquiet h⟩

/-- `pic_remap` with nothing in between. -/
theorem remap_run (output : Option Byte) :
    ∃ w, Run Wired.Step (.start bootDevice [] output false) (List.replicate 12 .kernel) w ∧
      w.kernel = .ret () ∧ w.missed = output.isSome ∧ w.handler = none ∧ w.output = output ∧ w.keys = [] :=
  ⟨_, (((((((((((Run.nil.snoc (.kernel rfl rfl)).snoc (.kernel rfl rfl)).snoc (.kernel rfl rfl)).snoc
    (.kernel rfl rfl)).snoc (.kernel rfl rfl)).snoc (.kernel rfl rfl)).snoc (.kernel rfl rfl)).snoc
    (.kernel rfl rfl)).snoc (.kernel rfl rfl)).snoc (.kernel rfl rfl)).snoc (.kernel rfl rfl)).snoc
    (.kernel rfl rfl), rfl, rfl, rfl, rfl, rfl⟩

/-- Enter on GRUB's menu, released too late or in time: then the next key can ask for the CPU. -/
theorem keys_noticed_waiting :
    (∃ w, Run Wired.Step (.start bootDevice [] (some 0x9C#8) false) (List.replicate 12 .kernel) w ∧
      w.missed = true ∧ w.read = [] ∧ w.read ++ w.output.toList ++ w.keys = [0x9C#8]) ∧
    ∃ w t, Run Wired.Step (.start bootDevice [] none false)
        (List.replicate 12 .kernel ++ [.key 0x1E#8] ++ [.fill] ++ [.flag true]) w ∧
      w.missed = false ∧ w.output = some 0x1E#8 ∧ Wired.Step w (.request (.master 1 (by decide))) t := by
  refine ⟨?_, ?_⟩
  · obtain ⟨w, hrun, hdone, hmissed, -⟩ := remap_run (some 0x9C#8)
    obtain ⟨hcodes, -, -, hquiet⟩ := keys_noticed hrun hdone
    exact ⟨w, hrun, hmissed, (hquiet (Or.inl hmissed)).1, hcodes⟩
  · obtain ⟨w, hrun, hdone, hmissed, hhandler, hout, hkeys⟩ := remap_run none
    have hcame : w.keys ++ [0x1E#8] = [0x1E#8] := by rw [hkeys, List.nil_append]
    have hset := ((hrun.snoc (.key 0x1E#8)).snoc (.fill hcame hout)).snoc (.flag true hdone hhandler)
    obtain ⟨-, -, hasks, -⟩ := keys_noticed hset hdone
    obtain ⟨t, ht⟩ := hasks hmissed (by decide) (Option.some_ne_none _) rfl
    exact ⟨_, t, hset, hmissed, rfl, ht⟩

/-! ## Until all is read -/

def At.left (d : Device) : At → Nat
  | .status => 2
  | .read_scan_code => 1
  | .rest p => p.steps d + 5

def Wired.phaseLeft (w : Wired) : Nat :=
  match w.handler with
  | none => if w.interrupts then 3 else 4
  | some (_, a) => a.left w.device

/-- A code is fetched from the keyboard, asked for, found and read. -/
def Wired.weight (w : Wired) : Nat :=
  20 * w.keys.length + 10 * w.output.toList.length + w.phaseLeft

def Wired.left (w : Wired) : Nat := if w.output = none ∧ w.keys = [] then 0 else w.weight

theorem Wired.left_lt (hw : ¬(w.output = none ∧ w.keys = [])) (h : t.weight < w.weight) :
    t.left < w.left := by
  unfold Wired.left
  rw [if_neg hw]
  split <;> omega

theorem Wired.left_zero (h : w.left = 0) : w.output = none ∧ w.keys = [] := by
  by_contra hsome
  unfold Wired.left Wired.weight at h
  rw [if_neg hsome] at h
  refine hsome ⟨?_, List.length_eq_zero_iff.mp (by omega)⟩
  cases hout : w.output with
  | none => rfl
  | some b =>
    rw [hout] at h
    change 20 * w.keys.length + 10 * 1 + w.phaseLeft = 0 at h
    omega

/-- A step that leaves the codes where they are. -/
theorem Wired.left_lt_phase (hw : ¬(w.output = none ∧ w.keys = [])) (hkeys : t.keys = w.keys)
    (hout : t.output = w.output) (h : t.phaseLeft < w.phaseLeft) : t.left < w.left := by
  apply Wired.left_lt hw
  unfold Wired.weight
  rw [hkeys, hout]
  omega

theorem Wired.phaseLeft_none (h : w.handler = none) : w.phaseLeft = if w.interrupts then 3 else 4 := by
  unfold Wired.phaseLeft
  rw [h]

theorem Wired.phaseLeft_some {vector : Byte} {a : At} (h : w.handler = some (vector, a)) :
    w.phaseLeft = a.left w.device := by
  unfold Wired.phaseLeft
  rw [h]

/-- As long as codes wait, a step that is no key brings the reading nearer. -/
theorem Wired.Late.nearer (h : w.Late mask1 mask2) (hmissed : w.missed = false)
    (hopen : mask1.getLsbD 1 = false) (hkernel : w.kernel = .ret ()) (hleft : w.left ≠ 0) :
    ∃ l t, Wired.Step w l t ∧ l.code = none ∧ t.kernel = .ret () ∧ t.left < w.left := by
  have hsome : ¬(w.output = none ∧ w.keys = []) := fun h => hleft (if_pos h)
  cases hout : w.output with
  | none =>
    obtain ⟨b, keys, hkeys⟩ := List.exists_cons_of_ne_nil fun hnil => hsome ⟨hout, hnil⟩
    refine ⟨.fill, _, .fill hkeys hout, rfl, hkernel, Wired.left_lt hsome ?_⟩
    show 20 * keys.length + 10 * 1 + w.phaseLeft <
      20 * w.keys.length + 10 * w.output.toList.length + w.phaseLeft
    rw [hkeys, List.length_cons]
    omega
  | some b =>
    have hne : w.output ≠ none := by
      rw [hout]
      exact Option.some_ne_none b
    cases hh : w.handler with
    | none =>
      have hphase := Wired.phaseLeft_none hh
      cases hset : w.interrupts with
      | false =>
        refine ⟨.flag true, _, .flag true hkernel hh, rfl, hkernel, Wired.left_lt_phase hsome rfl rfl ?_⟩
        have hnext := Wired.phaseLeft_none (w := { w with interrupts := true }) hh
        rw [hphase, hset]
        exact hnext.trans_lt (Nat.lt_succ_self 3)
      | true =>
        obtain ⟨d, ht⟩ := h.can_ask hmissed hopen hne hset
        refine ⟨_, _, ht, rfl, hkernel, Wired.left_lt_phase hsome rfl rfl ?_⟩
        rw [hphase, hset]
        exact Nat.lt_succ_self 2
    | some p =>
      obtain ⟨vector, a⟩ := p
      have hphase := Wired.phaseLeft_some hh
      cases a with
      | status =>
        refine ⟨.status, _, .status hh, rfl, hkernel, Wired.left_lt_phase hsome rfl rfl ?_⟩
        rw [hphase, if_pos (Option.isSome_iff_ne_none.mpr hne)]
        exact Nat.lt_succ_self 1
      | read_scan_code =>
        refine ⟨.read, _, .read b hh, rfl, hkernel, Wired.left_lt hsome ?_⟩
        show 20 * w.keys.length + 10 * 0 + 2 <
          20 * w.keys.length + 10 * w.output.toList.length + w.phaseLeft
        rw [hphase, hout]
        show 20 * w.keys.length + 10 * 0 + 2 < 20 * w.keys.length + 10 * 1 + 1
        omega
      | rest p =>
        cases p with
        | ret =>
          refine ⟨.iret, _, .iret hh, rfl, hkernel, Wired.left_lt_phase hsome rfl rfl ?_⟩
          rw [hphase]
          exact Nat.lt_of_lt_of_le (show 3 < 5 by decide) (Nat.le_add_left 5 _)
        | fault e => exact e.elim
        | stmt f rest =>
          refine ⟨.statement, _, .statement hh, rfl, hkernel, Wired.left_lt_phase hsome rfl rfl ?_⟩
          rw [hphase]
          exact Nat.lt_succ_self _

/-- Reached from `w` without another key. -/
def Wired.Onward (start : Wired) (ls : List Wired.Label) (w : Wired) : Prop :=
  w.kernel = .ret () ∧ w.missed = false ∧
    ∃ ms, Run Wired.Step start (ls ++ ms) w ∧ ∀ l ∈ ms, l.code = none

theorem Wired.Onward.nearer {d : Device} {keys : List Byte} {output : Option Byte} {asked : Bool}
    {ls : List Wired.Label} (hopen : d.master.imr.getLsbD 1 = false) :
    ∀ w, Wired.Onward (.start d keys output asked) ls w → w.left ≠ 0 →
      ∃ l t, Wired.Step w l t ∧ l.code = none ∧ Wired.Onward (.start d keys output asked) ls t ∧
        t.left < w.left := by
  rintro w ⟨hkernel, hmissed, ms, hrun, hms⟩ hleft
  obtain ⟨hlate, -⟩ := (Wired.inv_run hrun).late hkernel
  obtain ⟨l, t, ht, hl, hdone, hlt⟩ := hlate.nearer hmissed hopen hkernel hleft
  refine ⟨l, t, ht, hl, ⟨hdone, (hlate.sound.missed ht).trans hmissed, ms ++ [l], ?_, ?_⟩, hlt⟩
  · rw [← List.append_assoc]
    exact .snoc hrun ht
  · exact List.forall_mem_append.mpr ⟨hms, by simpa using hl⟩

theorem pressed_none {ls : List Wired.Label} (h : ∀ l ∈ ls, l.code = none) : pressed ls = [] :=
  List.filterMap_eq_nil_iff.mpr h

/-- **Every key can still be read.** With line 1 open and no byte waiting at ICW1, from every state after
`pic_remap` the handler gets every code that was ever typed, in order, without another key. -/
theorem keys_read {d : Device} {keys : List Byte} {output : Option Byte} {asked : Bool}
    {ls : List Wired.Label} (h : Run Wired.Step (.start d keys output asked) ls w)
    (hdone : w.kernel = .ret ()) (hmissed : w.missed = false) (hopen : d.master.imr.getLsbD 1 = false) :
    ∃ ms t, Run Wired.Step w ms t ∧ pressed ms = [] ∧ ms.length ≤ w.left ∧
      t.read = output.toList ++ keys ++ pressed ls := by
  have hstart : Wired.Onward (.start d keys output asked) ls w :=
    ⟨hdone, hmissed, [], by rwa [List.append_nil], nofun⟩
  obtain ⟨ms, t, hrun, hms, ⟨-, -, qs, hfrom, hqs⟩, hzero, hlen⟩ :=
    Run.descend (Wired.Onward (.start d keys output asked) ls) (fun l : Wired.Label => l.code = none)
      Wired.left (Wired.Onward.nearer hopen) hstart
  refine ⟨ms, t, hrun, pressed_none hms, hlen, ?_⟩
  have hcodes := (Wired.inv_run hfrom).codes
  obtain ⟨hout, hkeys⟩ := Wired.left_zero hzero
  have hpressed : pressed (ls ++ qs) = pressed ls :=
    List.filterMap_append.trans ((congrArg _ (pressed_none hqs)).trans (List.append_nil _))
  unfold Wired.codes at hcodes
  rw [hout, hkeys, hpressed, List.append_nil] at hcodes
  exact (List.append_nil _).symm.trans hcodes

theorem keys_read_typed :
    ∃ w ms t, Run Wired.Step (.start bootDevice [] none false)
        (List.replicate 12 .kernel ++ [.key 0x1E#8] ++ [.key 0x9E#8]) w ∧
      Run Wired.Step w ms t ∧ t.read = [0x1E#8, 0x9E#8] := by
  obtain ⟨w, hrun, hdone, hmissed, -⟩ := remap_run none
  have hkeys := (hrun.snoc (.key 0x1E#8)).snoc (.key 0x9E#8)
  obtain ⟨ms, t, hread, -, -, hall⟩ := keys_read hkeys hdone hmissed (by decide)
  exact ⟨_, ms, t, hkeys, hread, hall⟩

end

end MiniOS.Interrupt
