import MiniOS.Lib.Run

/-!
# A pool of items

What an allocator owes its callers, over any type of items: it hands out a free
item or reports that there is none, and takes back only what it handed out.
-/

namespace MiniOS.Lib

variable {α : Type*}

/-- The free items, and the items that callers hold. -/
structure Pool (α : Type*) where
  free : Set α
  live : Set α

inductive Pool.Call (α : Type*)
  | take (a : α)
  | exhausted
  | give (a : α)

inductive Pool.Step : Pool α → Pool.Call α → Pool α → Prop
  | take {free live : Set α} {a : α} :
      a ∈ free → Step ⟨free, live⟩ (.take a) ⟨free \ {a}, insert a live⟩
  | exhausted {live : Set α} : Step ⟨∅, live⟩ .exhausted ⟨∅, live⟩
  | give {free live : Set α} {a : α} :
      a ∈ live → Step ⟨free, live⟩ (.give a) ⟨insert a free, live \ {a}⟩

/-- Nothing is lost and nothing is in both places. -/
def Pool.Splits (all : Set α) (p : Pool α) : Prop :=
  p.free ∪ p.live = all ∧ Disjoint p.free p.live

theorem Pool.Step.splits {all : Set α} {p q : Pool α} {c : Pool.Call α} (hp : p.Splits all)
    (h : Pool.Step p c q) : q.Splits all := by
  obtain ⟨hall, hdis⟩ := hp
  simp only [Set.ext_iff, Set.mem_union, Set.disjoint_left] at hall hdis
  simp only [Pool.Splits, Set.ext_iff, Set.mem_union, Set.disjoint_left]
  cases h with
  | take ha =>
    refine ⟨fun x => ?_, fun x => ?_⟩ <;>
      simp only [Set.mem_sdiff, Set.mem_insert_iff, Set.mem_singleton_iff] <;> grind
  | exhausted => exact ⟨hall, hdis⟩
  | give ha =>
    refine ⟨fun x => ?_, fun x => ?_⟩ <;>
      simp only [Set.mem_sdiff, Set.mem_insert_iff, Set.mem_singleton_iff] <;> grind

theorem Pool.run_splits {all : Set α} {calls : List (Pool.Call α)} {p : Pool α}
    (h : Run Pool.Step ⟨all, ∅⟩ calls p) : p.Splits all :=
  h.state_inv _ ⟨by simp, by simp⟩ (fun _ _ _ hp hs => hs.splits hp)

theorem Pool.Splits.free_eq {all : Set α} {p : Pool α} (h : p.Splits all) :
    p.free = all \ p.live := by
  rw [← h.1, Set.union_sdiff_right, h.2.sdiff_eq_left]

theorem Pool.Splits.live_subset {all : Set α} {p : Pool α} (h : p.Splits all) : p.live ⊆ all :=
  h.1 ▸ Set.subset_union_right

theorem Pool.run_taken {all : Set α} {calls : List (Pool.Call α)} {p : Pool α}
    (h : Run Pool.Step ⟨all, ∅⟩ calls p) : ∀ a, .take a ∈ calls → a ∈ all := by
  induction h with
  | nil => simp
  | snoc hr hs ih =>
    intro a ha
    rw [List.mem_append, List.mem_singleton] at ha
    rcases ha with ha | rfl
    · exact ih a ha
    · cases hs with
      | take hfree => exact (Pool.run_splits hr).1 ▸ Or.inl hfree

end MiniOS.Lib
