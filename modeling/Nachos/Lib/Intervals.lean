import Mathlib

/-!
# Intervals

Intervals of integers that do not overlap.

* `mem_interval_iff`: if they all lie in an interval that is as long as they are together, they
  cover it.
-/

namespace Nachos.Lib

variable {ι : Type} {start size : ι → ℤ}

/-- The integers in the intervals. -/
noncomputable def covered (start size : ι → ℤ) : List ι → Finset ℤ
  | [] => ∅
  | i :: l => Finset.Ico (start i) (start i + size i) ∪ covered start size l

theorem mem_covered {l : List ι} {a : ℤ} :
    a ∈ covered start size l ↔ ∃ i ∈ l, start i ≤ a ∧ a < start i + size i := by
  induction l with
  | nil => simp [covered]
  | cons i l ih => simp [covered, ih]

/-- Two intervals have no integer in common. -/
def Apart (start size : ι → ℤ) (i j : ι) : Prop :=
  ∀ a, ¬ ((start i ≤ a ∧ a < start i + size i) ∧ start j ≤ a ∧ a < start j + size j)

instance : Std.Symm (Apart start size) := ⟨fun _ _ h a ha => h a ha.symm⟩

/-- The number of integers is the sum of the lengths. -/
theorem card_covered {l : List ι} (hsize : ∀ i ∈ l, 0 ≤ size i)
    (hapart : l.Pairwise (Apart start size)) :
    ((covered start size l).card : ℤ) = (l.map size).sum := by
  induction l with
  | nil => rfl
  | cons i l ih =>
    obtain ⟨hi, hl⟩ := List.pairwise_cons.mp hapart
    have hdisjoint : Disjoint (Finset.Ico (start i) (start i + size i)) (covered start size l) := by
      rw [Finset.disjoint_left]
      intro a ha hmem
      obtain ⟨j, hj, haj⟩ := mem_covered.mp hmem
      exact hi j hj a ⟨Finset.mem_Ico.mp ha, haj⟩
    have hcard : ((Finset.Ico (start i) (start i + size i)).card : ℤ) = size i := by
      have hnonneg := hsize i List.mem_cons_self
      rw [Int.card_Ico]
      omega
    rw [covered, Finset.card_union_of_disjoint hdisjoint, Nat.cast_add, hcard,
      ih (fun j hj => hsize j (List.mem_cons_of_mem i hj)) hl, List.map_cons, List.sum_cons]

/-- **Intervals that lie in one of their length cover it.** -/
theorem mem_interval_iff {l : List ι} {p : ℤ} (hsize : ∀ i ∈ l, 0 ≤ size i)
    (hapart : l.Pairwise (Apart start size))
    (hin : ∀ i ∈ l, p ≤ start i ∧ start i + size i ≤ p + (l.map size).sum) (a : ℤ) :
    (p ≤ a ∧ a < p + (l.map size).sum) ↔ ∃ i ∈ l, start i ≤ a ∧ a < start i + size i := by
  have hsubset : covered start size l ⊆ Finset.Ico p (p + (l.map size).sum) := by
    intro b hb
    obtain ⟨i, hi, hbi⟩ := mem_covered.mp hb
    have hbounds := hin i hi
    rw [Finset.mem_Ico]
    omega
  have hcard := card_covered hsize hapart
  have heq : covered start size l = Finset.Ico p (p + (l.map size).sum) := by
    refine Finset.eq_of_subset_of_card_le hsubset ?_
    rw [Int.card_Ico]
    omega
  rw [← mem_covered, heq, Finset.mem_Ico]

end Nachos.Lib
