import MiniOS.Basic

/-!
# Strings in arrays

Loops that copy a NUL-terminated string into an array. A store outside the array, or a
read past the source's last byte, gives `none`.
-/

namespace MiniOS

def lit (s : String) : List Byte := ascii s ++ [0#8]

def store {n : Nat} (out : Vector Byte n) (i : Nat) (b : Byte) : Option (Vector Byte n) :=
  if h : i < n then some (out.set i b h) else none

/-- `while (*p && o + 1 < out_sz) out[o++] = *p++;`, with the last value of `o`. -/
def copyLoop {n : Nat} (out_sz : Nat) : List Byte → Nat → Vector Byte n → Option (Nat × Vector Byte n)
  | [], _, _ => none
  | b :: p, o, out =>
    if b ≠ 0#8 ∧ o + 1 < out_sz then (store out o b).bind (copyLoop out_sz p (o + 1))
    else some (o, out)

def str_copy {n : Nat} (dst : Vector Byte n) (src : List Byte) (max : Nat) : Option (Vector Byte n) :=
  (copyLoop max src 0 dst).bind fun x => store x.2 x.1 0#8

/-- `while (*a && *b)`: both are read in each round, and once more at the end. -/
def str_equal : List Byte → List Byte → Option Bool
  | a :: as, b :: bs =>
    if a ≠ 0#8 ∧ b ≠ 0#8 then if a ≠ b then some false else str_equal as bs
    else some (decide (a = b))
  | _, _ => none

/-! ## What the arrays say -/

/-- The bytes from a pointer on hold `s`, and then a NUL. -/
def IsCString (bytes s : List Byte) : Prop := 0#8 ∉ s ∧ ∃ rest, bytes = s ++ 0#8 :: rest

theorem IsCString.cString {bytes s : List Byte} (h : IsCString bytes s) : cString bytes = s := by
  obtain ⟨hs, rest, rfl⟩ := h
  unfold MiniOS.cString
  rw [List.takeWhile_append_of_pos]
  · simp
  · intro b hb
    rw [decide_eq_true_eq]
    rintro rfl
    exact hs hb

theorem IsCString.head? {bytes s : List Byte} (h : IsCString bytes s) :
    bytes.head? = some (s.headD 0#8) := by
  obtain ⟨-, rest, rfl⟩ := h
  cases s <;> rfl

theorem IsCString.mem {bytes s : List Byte} (h : IsCString bytes s) : 0#8 ∈ bytes := by
  obtain ⟨-, rest, rfl⟩ := h
  exact List.mem_append_right _ List.mem_cons_self

theorem isCString_of_mem {bytes : List Byte} (h : 0#8 ∈ bytes) : IsCString bytes (cString bytes) := by
  induction bytes with
  | nil => simp at h
  | cons b bytes ih =>
    by_cases hb : b = 0#8
    · subst hb
      exact ⟨by simp [cString], bytes, by simp [cString]⟩
    · obtain ⟨hs, rest, hrest⟩ := ih (by simpa [Ne.symm hb] using h)
      have hcons : cString (b :: bytes) = b :: cString bytes := by simp [cString, hb]
      rw [hcons]
      refine ⟨by simp [Ne.symm hb, hs], rest, ?_⟩
      rw [List.cons_append, ← hrest]

theorem lit_isCString {s : String} (h : 0#8 ∉ ascii s) : IsCString (lit s) (ascii s) := ⟨h, [], rfl⟩

theorem str_equal_spec {a b s t : List Byte} (ha : IsCString a s) (hb : IsCString b t) :
    str_equal a b = some (decide (s = t)) := by
  obtain ⟨hs, ra, rfl⟩ := ha
  obtain ⟨ht, rb, rfl⟩ := hb
  induction s generalizing t with
  | nil =>
    cases t with
    | nil => simp [str_equal]
    | cons y t =>
      have hy : 0#8 ≠ y := fun h => ht (h ▸ List.mem_cons_self)
      simp [str_equal, hy]
  | cons x s ih =>
    have hx : x ≠ 0#8 := fun h => hs (h ▸ List.mem_cons_self)
    cases t with
    | nil => simp [str_equal, hx]
    | cons y t =>
      have hy : y ≠ 0#8 := fun h => ht (h ▸ List.mem_cons_self)
      have hrec := ih (fun h => hs (List.mem_cons_of_mem _ h)) (fun h => ht (List.mem_cons_of_mem _ h))
      by_cases hxy : x = y
      · subst hxy
        simpa [str_equal, hx] using hrec
      · simp [str_equal, hx, hy, hxy]

/-! ## What the copies write -/

/-- The text so far, cut to what fits before the NUL, stands at the start of `out`. -/
structure Written {n : Nat} (out_sz : Nat) (out : Vector Byte n) (o : Nat) (text : List Byte) : Prop where
  len : o = min text.length (out_sz - 1)
  prefix_eq : out.toList.take o = text.take (out_sz - 1)

variable {n out_sz : Nat}

theorem written_nil (out : Vector Byte n) : Written out_sz out 0 [] := ⟨by simp, by simp⟩

theorem take_set (out : Vector Byte n) (i : Nat) (b : Byte) (h : i < n) :
    (out.set i b h).toList.take i = out.toList.take i ∧
      (out.set i b h).toList.take (i + 1) = out.toList.take i ++ [b] := by
  rw [Vector.toList_set]
  refine ⟨List.take_set_of_le (le_refl i), ?_⟩
  rw [List.take_add_one, List.take_set_of_le (le_refl i)]
  simp [h]

theorem Written.store {out : Vector Byte n} {o : Nat} {text : List Byte}
    (h : Written out_sz out o text) (hfit : o + 1 < out_sz) (hsz : out_sz ≤ n) (b : Byte) :
    ∃ out', MiniOS.store out o b = some out' ∧ Written out_sz out' (o + 1) (text ++ [b]) := by
  have hn : o < n := by omega
  have hlen := h.len
  have hall : text.take (out_sz - 1) = text := List.take_of_length_le (by omega)
  refine ⟨out.set o b hn, dif_pos hn, ?_, ?_⟩
  · rw [List.length_append, List.length_singleton]
    omega
  · rw [(take_set out o b hn).2, h.prefix_eq, hall, List.take_of_length_le]
    rw [List.length_append, List.length_singleton]
    omega

theorem Written.stop {out : Vector Byte n} {o : Nat} {text : List Byte}
    (h : Written out_sz out o text) (hfull : ¬ o + 1 < out_sz) (more : List Byte) :
    Written out_sz out o (text ++ more) := by
  have hlen := h.len
  refine ⟨?_, ?_⟩
  · rw [List.length_append]
    omega
  · rw [h.prefix_eq, List.take_append_of_le_length (by omega)]

theorem copyLoop_spec {p s : List Byte} (hp : IsCString p s) (hsz : out_sz ≤ n) {out : Vector Byte n}
    {o : Nat} {text : List Byte} (h : Written out_sz out o text) :
    ∃ o' out', copyLoop out_sz p o out = some (o', out') ∧ Written out_sz out' o' (text ++ s) := by
  obtain ⟨hs, rest, rfl⟩ := hp
  induction s generalizing o out text with
  | nil => exact ⟨o, out, by simp [copyLoop], by simpa using h⟩
  | cons b s ih =>
    have hb : b ≠ 0#8 := fun h => hs (h ▸ List.mem_cons_self)
    by_cases hfit : o + 1 < out_sz
    · obtain ⟨out₁, hstore, h₁⟩ := h.store hfit hsz b
      obtain ⟨o', out', hloop, h'⟩ := ih h₁ (fun h => hs (List.mem_cons_of_mem _ h))
      refine ⟨o', out', ?_, by simpa using h'⟩
      rw [List.cons_append, copyLoop, if_pos ⟨hb, hfit⟩, hstore]
      exact hloop
    · refine ⟨o, out, ?_, h.stop hfit _⟩
      rw [List.cons_append, copyLoop, if_neg fun hc => hfit hc.2]

theorem Written.close {out : Vector Byte n} {o : Nat} {text : List Byte}
    (h : Written out_sz out o text) (h0 : 0 < out_sz) (hsz : out_sz ≤ n) (htext : 0#8 ∉ text) :
    ∃ out', MiniOS.store out o 0#8 = some out' ∧ IsCString out'.toList (text.take (out_sz - 1)) := by
  have hlen := h.len
  have hn : o < n := by omega
  refine ⟨out.set o 0#8 hn, dif_pos hn, fun hmem => htext (List.mem_of_mem_take hmem),
    (out.set o 0#8 hn).toList.drop (o + 1), ?_⟩
  have hset := (take_set out o 0#8 hn).2
  rw [h.prefix_eq] at hset
  rw [List.append_cons, ← hset, List.take_append_drop]

theorem str_copy_spec {src s : List Byte} (hsrc : IsCString src s) {max : Nat} (h0 : 0 < max)
    (hmax : max ≤ n) (dst : Vector Byte n) :
    ∃ dst', str_copy dst src max = some dst' ∧ IsCString dst'.toList (s.take (max - 1)) := by
  obtain ⟨o, dst₁, hloop, h₁⟩ := copyLoop_spec hsrc hmax (written_nil dst)
  obtain ⟨dst', hstore, h'⟩ := h₁.close h0 hmax hsrc.1
  refine ⟨dst', ?_, h'⟩
  rw [str_copy, hloop]
  exact hstore

end MiniOS
