import Nachos.Restaurant.Orders

/-!
# One call of `bagOrder`

The loops of `bagOrder` go over all orders and all items, and stop at the first call. There are
four ways to stop.

* `bagOrder_scan`: what a call of the loops does.
-/

namespace Nachos.Restaurant

open Nachos.Threads

variable {s : Shared} {i j : ℕ}

/-- The item `j` goes into the bag of the order `i`. -/
def bagItem (s : Shared) (i j : ℕ) : Shared :=
  { s with
    ordersNeedingBagging :=
      Function.update s.ordersNeedingBagging i (s.ordersNeedingBagging i ^^^ (1 <<< j))
    cookedFoodStacks := Function.update s.cookedFoodStacks j (s.cookedFoodStacks j - 1) }

/-- The order `i` needs no more bagging. -/
def bagWhole (s : Shared) (i : ℕ) : Shared :=
  { s with ordersNeedingBagging := Function.update s.ordersNeedingBagging i 0 }

/-- **A call of the loops** of `bagOrder`, which look through the order `cur` or go on to the next
    one. -/
inductive Scans (s : Shared) (cur : Option ℕ) : Act (Option BagAt) → Prop
  | done : Scans s cur ⟨s, .release .ordersNeedingBagging, none⟩
  | item (i j : ℕ) (hj : 1 ≤ j) (hneeded : (s.ordersNeedingBagging i).testBit j)
      (hcooked : 0 < s.cookedFoodStacks j) :
      Scans s cur ⟨bagItem s i j, .yield, some (.scan i (j + 1))⟩
  | eatIn (i : ℕ) (hopen : 0 < s.ordersNeedingBagging i ∨ cur = some i)
      (hbagged : s.ordersNeedingBagging i ≤ 1) :
      Scans s cur ⟨bagWhole s i, .acquire .baggedOrders, some (.eatIn i)⟩
  | togo (i : ℕ) (hopen : 0 < s.ordersNeedingBagging i ∨ cur = some i)
      (hbagged : s.ordersNeedingBagging i ≤ 1) :
      Scans s cur ⟨bagWhole s i, .acquire .orderReady, some (.togo i)⟩

/-- The first item of the order that is there. -/
theorem bagItems_cases (s : Shared) (i j rest : ℕ) :
    bagItems s i j rest = (s, none) ∨
      ∃ j', j ≤ j' ∧ (s.ordersNeedingBagging i).testBit j' ∧ 0 < s.cookedFoodStacks j' ∧
        bagItems s i j rest = (bagItem s i j', some (j' + 1)) := by
  induction rest generalizing j with
  | zero => exact Or.inl rfl
  | succ rest ih =>
    unfold bagItems
    split_ifs with hitem
    · exact Or.inr ⟨j, le_refl j, hitem.1, hitem.2, rfl⟩
    · apply (ih (j + 1)).imp_right
      rintro ⟨j', hj', hrest⟩
      exact ⟨j', by omega, hrest⟩

theorem scans_complete {cur : Option ℕ} (hopen : 0 < s.ordersNeedingBagging i ∨ cur = some i)
    {go : Shared → Act (Option BagAt)} (hgo : Scans s cur (go s)) :
    Scans s cur (bagComplete s i go) := by
  unfold bagComplete
  by_cases hbagged : s.ordersNeedingBagging i ≤ 1
  · rw [if_pos hbagged]
    simp only
    split_ifs
    · exact .eatIn i hopen hbagged
    · exact .togo i hopen hbagged
  · rw [if_neg hbagged]
    exact hgo

theorem scans_orders (s : Shared) (cur : Option ℕ) (i rest : ℕ) :
    Scans s cur (bagOrders i rest s) := by
  induction rest generalizing i with
  | zero => exact .done
  | succ rest ih =>
    unfold bagOrders
    split_ifs with hopen
    · rcases bagItems_cases s i 1 (numInventoryItemTypes - 1) with
        hnone | ⟨j, hj, hneeded, hcooked, hitem⟩
      · rw [hnone]
        exact scans_complete (Or.inl hopen) (ih (i + 1))
      · rw [hitem]
        exact .item i j hj hneeded hcooked
    · exact ih (i + 1)

/-- The order that `bagOrder` looks through at `scan`. -/
def BagAt.current : BagAt → Option ℕ
  | .scan i (_ + 1) => some i
  | _ => none

/-- **What a call of the loops does.** -/
theorem bagOrder_scan (isManager : Bool) (s : Shared) (i j : ℕ) :
    Scans s (BagAt.scan i j).current (bagOrder isManager s (.scan i j)) := by
  cases j with
  | zero => exact scans_orders s none i _
  | succ j =>
    simp only [bagOrder]
    rcases bagItems_cases s i (j + 1) (numInventoryItemTypes - (j + 1)) with
      hnone | ⟨j', hj, hneeded, hcooked, hitem⟩
    · rw [hnone]
      exact scans_complete (Or.inr rfl) (scans_orders s (some i) (i + 1) _)
    · rw [hitem]
      exact .item i j' (by omega) hneeded hcooked

end Nachos.Restaurant
