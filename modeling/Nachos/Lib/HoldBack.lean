import Mathlib

/-!
# Hold-back queues

A queue that keeps items in the order of a key and releases its first items, those
up to a bound.

* `insertBefore_perm`, `insertBefore_ordered`: insertion before the first item with a
  later key.
* `ordered_insertBefore_append`: what has been released and what is held back stay in
  order if nothing older than a released item is inserted.
* `lt_of_mem_dropWhile`: what is held back is later than the bound.
* `insertBefore_eq_filter`, `takeWhile_eq_filter`, `dropWhile_eq_filter`: insertion and release by
  the keys alone.
-/

namespace Nachos.Lib

variable {α τ : Type} [LinearOrder τ] (key : α → τ)

/-- The items stand in the order of their keys. -/
def Ordered (items : List α) : Prop := items.Pairwise (key · ≤ key ·)

instance (items : List α) : Decidable (Ordered key items) :=
  inferInstanceAs (Decidable (List.Pairwise _ _))

/-- Insert an item before the first one with a later key. -/
def insertBefore (item : α) : List α → List α
  | [] => [item]
  | x :: items => if key item < key x then item :: x :: items else x :: insertBefore item items

variable {key} {item x : α} {items released : List α} {bound : τ}

theorem insertBefore_perm : (insertBefore key item items).Perm (item :: items) := by
  induction items with
  | nil => exact List.Perm.refl _
  | cons x items ih =>
    rw [insertBefore]
    split_ifs
    · exact List.Perm.refl _
    · exact (ih.cons x).trans (List.Perm.swap item x items)

theorem mem_insertBefore : x ∈ insertBefore key item items ↔ x = item ∨ x ∈ items := by
  rw [insertBefore_perm.mem_iff, List.mem_cons]

theorem insertBefore_ordered (h : Ordered key items) : Ordered key (insertBefore key item items) := by
  induction items with
  | nil => exact List.pairwise_singleton _ _
  | cons x items ih =>
    obtain ⟨hx, hitems⟩ := List.pairwise_cons.mp h
    rw [insertBefore]
    split_ifs with hlt
    · refine List.pairwise_cons.mpr ⟨fun y hy => ?_, h⟩
      rcases List.mem_cons.mp hy with rfl | hy
      · exact hlt.le
      · exact hlt.le.trans (hx y hy)
    · refine List.pairwise_cons.mpr ⟨fun y hy => ?_, ih hitems⟩
      rcases mem_insertBefore.mp hy with rfl | hy
      · exact not_lt.mp hlt
      · exact hx y hy

/-- **Insertion** behind everything that has been released. -/
theorem ordered_insertBefore_append (h : Ordered key (released ++ items))
    (hitem : ∀ y ∈ released, key y ≤ key item) :
    Ordered key (released ++ insertBefore key item items) := by
  obtain ⟨hreleased, hitems, hcross⟩ := List.pairwise_append.mp h
  refine List.pairwise_append.mpr ⟨hreleased, insertBefore_ordered hitems, fun y hy z hz => ?_⟩
  rcases mem_insertBefore.mp hz with rfl | hz
  · exact hitem y hy
  · exact hcross y hy z hz

/-- **What is held back** is later than the bound. -/
theorem lt_of_mem_dropWhile (h : Ordered key items) (hx : x ∈ items.dropWhile (key · ≤ bound)) :
    bound < key x := by
  induction items with
  | nil => simp at hx
  | cons y items ih =>
    obtain ⟨hy, hitems⟩ := List.pairwise_cons.mp h
    by_cases hle : key y ≤ bound
    · exact ih hitems (by simpa [List.dropWhile_cons, hle] using hx)
    · simp only [List.dropWhile_cons, hle, decide_false] at hx
      rcases List.mem_cons.mp hx with rfl | hx
      · exact not_le.mp hle
      · exact (not_le.mp hle).trans_le (hy x hx)

/-- The items held back are those later than the bound. -/
theorem length_dropWhile_eq_countP (h : Ordered key items) :
    (items.dropWhile (key · ≤ bound)).length = items.countP (bound < key ·) := by
  induction items with
  | nil => rfl
  | cons x items ih =>
    by_cases hle : key x ≤ bound
    · simp [hle, ih h.of_cons]
    · have hlater : ∀ y ∈ x :: items, bound < key y := fun y hy =>
        lt_of_mem_dropWhile h (by simpa [List.dropWhile_cons, hle] using hy)
      rw [List.dropWhile_cons_of_neg (by simpa using hle),
        List.countP_eq_length.mpr fun y hy => by simpa using hlater y hy]

/-- What is released is what is up to the bound. -/
theorem takeWhile_eq_filter (h : Ordered key items) :
    items.takeWhile (key · ≤ bound) = items.filter (key · ≤ bound) := by
  induction items with
  | nil => rfl
  | cons x items ih =>
    by_cases hle : key x ≤ bound
    · rw [List.takeWhile_cons_of_pos (by simpa using hle), ih h.of_cons,
        List.filter_cons_of_pos (by simpa using hle)]
    · have hlater : ∀ y ∈ x :: items, bound < key y := fun y hy =>
        lt_of_mem_dropWhile h (by simpa [List.dropWhile_cons, hle] using hy)
      rw [List.takeWhile_cons_of_neg (by simpa using hle), eq_comm, List.filter_eq_nil_iff]
      exact fun y hy => by simpa using hlater y hy

/-- What is held back is what is later than the bound. -/
theorem dropWhile_eq_filter (h : Ordered key items) :
    items.dropWhile (key · ≤ bound) = items.filter (bound < key ·) := by
  induction items with
  | nil => rfl
  | cons x items ih =>
    by_cases hle : key x ≤ bound
    · rw [List.dropWhile_cons_of_pos (by simpa using hle), ih h.of_cons,
        List.filter_cons_of_neg (by simpa using hle)]
    · have hlater : ∀ y ∈ x :: items, bound < key y := fun y hy =>
        lt_of_mem_dropWhile h (by simpa [List.dropWhile_cons, hle] using hy)
      rw [List.dropWhile_cons_of_neg (by simpa using hle), eq_comm, List.filter_eq_self]
      exact fun y hy => by simpa using hlater y hy

/-- An item comes behind the items that are not later. -/
theorem insertBefore_eq_filter (h : Ordered key items) :
    insertBefore key item items =
      items.filter (key · ≤ key item) ++ item :: items.filter (key item < key ·) := by
  induction items with
  | nil => rfl
  | cons x items ih =>
    rw [insertBefore]
    split_ifs with hlt
    · have hlater : ∀ y ∈ x :: items, key item < key y := by
        intro y hy
        rcases List.mem_cons.mp hy with rfl | hy
        · exact hlt
        · exact hlt.trans_le (List.rel_of_pairwise_cons h hy)
      have hnone : (x :: items).filter (key · ≤ key item) = [] :=
        List.filter_eq_nil_iff.mpr fun y hy => by simpa using hlater y hy
      have hall : (x :: items).filter (key item < key ·) = x :: items :=
        List.filter_eq_self.mpr fun y hy => by simpa using hlater y hy
      rw [hnone, hall, List.nil_append]
    · have hle : key x ≤ key item := not_lt.mp hlt
      rw [ih h.of_cons, List.filter_cons_of_pos (by simpa using hle),
        List.filter_cons_of_neg (by simpa using hle), List.cons_append]

theorem le_of_mem_takeWhile (hx : x ∈ items.takeWhile (key · ≤ bound)) : key x ≤ bound := by
  simpa using List.mem_takeWhile_imp hx

end Nachos.Lib
