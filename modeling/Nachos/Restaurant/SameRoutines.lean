import Mathlib.Logic.Relation
import Nachos.Lib.Run
import Nachos.Restaurant.Routines
import Nachos.Restaurant.UserPrograms

/-!
# The routines among the threads of the simulation

`UserPrograms` has the routines that are user programs too, with their variables in a plain memory
and without the prints of `PrintOutV`. The simulation runs the same routines of
`threads/simulation.cc`, on its shared data and with a call for each print.

* `program_like_threaded`: at each point of such a routine, the next call of a thread that is no
  print of `PrintOutV` is that of the routine in `UserPrograms`, with the same variables.
* `simulation_like_threaded`: so the thread does, when no other one runs meanwhile.
-/

namespace Nachos.Restaurant

open Nachos.Lib Nachos.Threads Relation

/-! ## The shared data as a memory -/

/-- The element `i` of an array, which has none at a negative index. -/
def element (a : ℕ → ℤ) : ℤ → Option ℤ
  | .ofNat i => some (a i)
  | .negSucc _ => none

/-- The value of a variable. -/
def Shared.value (s : Shared) : Variable → Option ℤ
  | .countLineToEnterRestLength => some s.countLineToEnterRestLength
  | .lineToEnterRest i => element (fun i => s.lineToEnterRest i) i
  | .countLineToOrderFoodLength => some s.countLineToOrderFoodLength
  | .lineToOrderFood i => element (fun i => s.lineToOrderFood i) i
  | .getOrderTakerIDFromCustomerID i => element (fun i => s.getOrderTakerIDFromCustomerID i) i
  | .getCustomerOrderFoodChoiceFromOrderTakerID i =>
    element (fun i => s.getCustomerOrderFoodChoiceFromOrderTakerID i) i
  | .getCustomerTogoOrEatinFromCustomerID i =>
    element (fun i => (s.getCustomerTogoOrEatinFromCustomerID i).toNat) i
  | .orderNumberFromCustomerID i => element (fun i => s.orderNumberFromCustomerID i) i
  | .listOrdersReadyFromToken i => element (fun i => (s.listOrdersReadyFromToken i).toNat) i
  | .getCustomerIDFromToken i => element (fun i => s.getCustomerIDFromToken i) i
  | .inventoryCount i => element s.inventoryCount i
  | .inventoryCost i => element s.inventoryCost i
  | .cookedFoodStacks i => element s.cookedFoodStacks i
  | .orderNumCounter => some s.orderNumCounter
  | .ordersNeedingBagging i => element (fun i => s.ordersNeedingBagging i) i
  | .baggedOrders i => element (fun i => s.baggedOrders i) i
  | .countNumOrdersBaggedAndReady => some s.countNumOrdersBaggedAndReady
  | .moneyRest => some s.moneyRest
  | .countNumTablesAvailable => some s.countNumTablesAvailable

/-- The memory has the values of the shared data. -/
def Holds (s : Shared) (m : Memory) : Prop := ∀ v x, s.value v = some x → m v = x

/-- A memory that has them. -/
def Shared.memory (s : Shared) : Memory := fun v => (s.value v).getD 0

theorem Shared.holds_memory (s : Shared) : Holds s s.memory := by
  intro v x hx
  rw [Shared.memory, hx, Option.getD_some]

theorem element_of_ne {a b : ℕ → ℤ} {n : ℕ} {i : ℤ} (hab : ∀ k ≠ n, a k = b k) (hi : i ≠ n) :
    element a i = element b i := by
  cases i with
  | ofNat k =>
    have hk : k ≠ n := by
      rintro rfl
      exact hi rfl
    rw [element, element, hab k hk]
  | negSucc k => rfl

namespace Holds

variable {s s' : Shared} {m : Memory}

/-- **A write** to one variable. -/
theorem set (hs : Holds s m) {v : Variable} {x : ℤ} (hv : s'.value v = some x)
    (hother : ∀ w ≠ v, s'.value w = s.value w) : Holds s' (m.set v x) := by
  intro w y hy
  by_cases hw : w = v
  · subst hw
    rw [Memory.set, Function.update_self]
    exact Option.some_injective _ (hv.symm.trans hy)
  · rw [Memory.set, Function.update_of_ne hw]
    exact hs w y ((hother w hw).symm.trans hy)

/-- **A write** to the element `n` of an array. -/
theorem setElement (hs : Holds s m) {v : ℤ → Variable} {a b : ℕ → ℤ} {n : ℕ} {x : ℤ}
    (ha : ∀ i, s.value (v i) = element a i) (hb : ∀ i, s'.value (v i) = element b i)
    (hn : b n = x) (hab : ∀ k ≠ n, b k = a k)
    (hother : ∀ w, (∀ i, w ≠ v i) → s'.value w = s.value w) : Holds s' (m.set (v n) x) := by
  refine hs.set ?_ fun w hw => ?_
  · rw [hb, ← hn]
    rfl
  · by_cases hv : ∃ i, w = v i
    · obtain ⟨i, rfl⟩ := hv
      have hi : i ≠ n := by
        rintro rfl
        exact hw rfl
      rw [hb, ha]
      exact element_of_ne hab hi
    · exact hother w fun i hi => hv ⟨i, hi⟩

/-- The history is no variable. -/
theorem history (hs : Holds s m) (h : History) : Holds { s with history := h } m := by
  intro v x hx
  apply hs v x
  cases v <;> exact hx

/-! ### Scalars -/

theorem setCountLineToEnterRestLength (hs : Holds s m) (n : ℕ) :
    Holds { s with countLineToEnterRestLength := n } (m.set .countLineToEnterRestLength n) :=
  hs.set rfl fun w hw => by cases w <;> first | rfl | exact absurd rfl hw

theorem setCountLineToOrderFoodLength (hs : Holds s m) (n : ℕ) :
    Holds { s with countLineToOrderFoodLength := n } (m.set .countLineToOrderFoodLength n) :=
  hs.set rfl fun w hw => by cases w <;> first | rfl | exact absurd rfl hw

theorem setOrderNumCounter (hs : Holds s m) (n : ℕ) :
    Holds { s with orderNumCounter := n } (m.set .orderNumCounter n) :=
  hs.set rfl fun w hw => by cases w <;> first | rfl | exact absurd rfl hw

theorem setCountNumOrdersBaggedAndReady (hs : Holds s m) (n : ℕ) :
    Holds { s with countNumOrdersBaggedAndReady := n } (m.set .countNumOrdersBaggedAndReady n) :=
  hs.set rfl fun w hw => by cases w <;> first | rfl | exact absurd rfl hw

theorem setMoneyRest (hs : Holds s m) (x : ℤ) :
    Holds { s with moneyRest := x } (m.set .moneyRest x) :=
  hs.set rfl fun w hw => by cases w <;> first | rfl | exact absurd rfl hw

theorem setCountNumTablesAvailable (hs : Holds s m) (x : ℤ) :
    Holds { s with countNumTablesAvailable := x } (m.set .countNumTablesAvailable x) :=
  hs.set rfl fun w hw => by cases w <;> first | rfl | exact absurd rfl hw

/-! ### Elements of arrays -/

theorem setLineToEnterRest (hs : Holds s m) (i x : ℕ) :
    Holds { s with lineToEnterRest := Function.update s.lineToEnterRest i x }
      (m.set (.lineToEnterRest i) x) :=
  hs.setElement (v := .lineToEnterRest) (fun _ => rfl) (fun _ => rfl) (by simp)
    (fun k hk => by simp [hk]) fun w hw => by cases w <;> first | rfl | exact absurd rfl (hw _)

theorem setLineToOrderFood (hs : Holds s m) (i x : ℕ) :
    Holds { s with lineToOrderFood := Function.update s.lineToOrderFood i x }
      (m.set (.lineToOrderFood i) x) :=
  hs.setElement (v := .lineToOrderFood) (fun _ => rfl) (fun _ => rfl) (by simp)
    (fun k hk => by simp [hk]) fun w hw => by cases w <;> first | rfl | exact absurd rfl (hw _)

theorem setGetOrderTakerIDFromCustomerID (hs : Holds s m) (i x : ℕ) :
    Holds { s with
        getOrderTakerIDFromCustomerID := Function.update s.getOrderTakerIDFromCustomerID i x }
      (m.set (.getOrderTakerIDFromCustomerID i) x) :=
  hs.setElement (v := .getOrderTakerIDFromCustomerID) (fun _ => rfl) (fun _ => rfl) (by simp)
    (fun k hk => by simp [hk]) fun w hw => by cases w <;> first | rfl | exact absurd rfl (hw _)

theorem setOrderNumberFromCustomerID (hs : Holds s m) (i x : ℕ) :
    Holds { s with orderNumberFromCustomerID := Function.update s.orderNumberFromCustomerID i x }
      (m.set (.orderNumberFromCustomerID i) x) :=
  hs.setElement (v := .orderNumberFromCustomerID) (fun _ => rfl) (fun _ => rfl) (by simp)
    (fun k hk => by simp [hk]) fun w hw => by cases w <;> first | rfl | exact absurd rfl (hw _)

theorem setGetCustomerIDFromToken (hs : Holds s m) (i x : ℕ) :
    Holds { s with getCustomerIDFromToken := Function.update s.getCustomerIDFromToken i x }
      (m.set (.getCustomerIDFromToken i) x) :=
  hs.setElement (v := .getCustomerIDFromToken) (fun _ => rfl) (fun _ => rfl) (by simp)
    (fun k hk => by simp [hk]) fun w hw => by cases w <;> first | rfl | exact absurd rfl (hw _)

theorem setOrdersNeedingBagging (hs : Holds s m) (i x : ℕ) :
    Holds { s with ordersNeedingBagging := Function.update s.ordersNeedingBagging i x }
      (m.set (.ordersNeedingBagging i) x) :=
  hs.setElement (v := .ordersNeedingBagging) (fun _ => rfl) (fun _ => rfl) (by simp)
    (fun k hk => by simp [hk]) fun w hw => by cases w <;> first | rfl | exact absurd rfl (hw _)

theorem setBaggedOrders (hs : Holds s m) (i x : ℕ) :
    Holds { s with baggedOrders := Function.update s.baggedOrders i x }
      (m.set (.baggedOrders i) x) :=
  hs.setElement (v := .baggedOrders) (fun _ => rfl) (fun _ => rfl) (by simp)
    (fun k hk => by simp [hk]) fun w hw => by cases w <;> first | rfl | exact absurd rfl (hw _)

theorem setCookedFoodStacks (hs : Holds s m) (i : ℕ) (x : ℤ) :
    Holds { s with cookedFoodStacks := Function.update s.cookedFoodStacks i x }
      (m.set (.cookedFoodStacks i) x) :=
  hs.setElement (v := .cookedFoodStacks) (fun _ => rfl) (fun _ => rfl) (by simp)
    (fun k hk => by simp [hk]) fun w hw => by cases w <;> first | rfl | exact absurd rfl (hw _)

theorem setInventoryCount (hs : Holds s m) (i : ℕ) (x : ℤ) :
    Holds { s with inventoryCount := Function.update s.inventoryCount i x }
      (m.set (.inventoryCount i) x) :=
  hs.setElement (v := .inventoryCount) (fun _ => rfl) (fun _ => rfl) (by simp)
    (fun k hk => by simp [hk]) fun w hw => by cases w <;> first | rfl | exact absurd rfl (hw _)

theorem setListOrdersReadyFromToken (hs : Holds s m) (i : ℕ) :
    Holds { s with
        listOrdersReadyFromToken := Function.update s.listOrdersReadyFromToken i true }
      (m.set (.listOrdersReadyFromToken i) 1) :=
  hs.setElement (v := .listOrdersReadyFromToken) (fun _ => rfl) (fun _ => rfl) (by simp)
    (fun k hk => by simp [hk]) fun w hw => by cases w <;> first | rfl | exact absurd rfl (hw _)

end Holds

/-! ## Calls and points -/

/-- The lock of these routines. -/
def LockName.variable : LockName → Option LockVariable
  | .lineToEnterRest => some .lineToEnterRest
  | .lineToOrderFood => some .lineToOrderFood
  | .orderTakerBusy orderTakerID => some (.orderTakerBusy orderTakerID)
  | .ordersNeedingBagging => some .ordersNeedingBagging
  | .baggedOrders => some .baggedOrders
  | .orderReady => some .orderReady
  | .inventory i => some (.inventory i)
  | .customerSitting _ | .mrWr | .hireCook | .initialization => none

/-- The condition of these routines. -/
def CVName.variable : CVName → Option ConditionVariable
  | .lineToEnterRest custID => some (.lineToEnterRest custID)
  | .lineToOrderFood custID => some (.lineToOrderFood custID)
  | .orderTakerBusy orderTakerID => some (.orderTakerBusy orderTakerID)
  | .baggedOrders => some .baggedOrders
  | .orderReady => some .orderReady
  | .customerSitting _ | .mrWr | .inventory _ | .hireCook => none

/-- The call of these routines. -/
def switchCall {α : Type} : Op LockName CVName α → Option SwitchCall
  | .acquire l => l.variable.map .acquire
  | .release l => l.variable.map .release
  | .wait c l => c.variable.bind fun c => l.variable.map (.wait c)
  | .signal c l => c.variable.bind fun c => l.variable.map (.signal c)
  | .broadcast c l => c.variable.bind fun c => l.variable.map (.broadcast c)
  | .yield => some .yield
  | .fork _ | .finish => none

@[simp] theorem switchCall_map {α β : Type} (f : α → β) (op : Op LockName CVName α) :
    switchCall (op.map f) = switchCall op := by
  cases op <;> rfl

/-- The point of `serviceCustomer`; behind a print of `PrintOutV` there is none. -/
def ServiceAt.serving : ServiceAt → Option ServingAt
  | .enter => some .enter
  | .look => some .look
  | .chosen custID => some (.chosen custID)
  | .acquired custID => some (.acquired custID)
  | .ask custID => some (.ask custID)
  | .ordered custID => some (.ordered custID)
  | .respond custID => some (.respond custID)
  | .paid custID => some (.paid custID)
  | .numbered _ _ => none
  | .told _ token => some (.told token)
  | .add _ token => some (.add token)
  | .added _ _ => none
  | .leave _ _ => some .leave

/-- The point of `bagOrder`; between the items of an order there is none. -/
def BagAt.bagging : BagAt → Option BaggingAt
  | .enter => some .enter
  | .scan i 0 => some (.scan i)
  | .scan _ (_ + 1) => none
  | .eatIn i => some (.eatIn i)
  | .callWaiters i => some (.callWaiters i)
  | .eatInReady i => some (.eatInReady i)
  | .togo i => some (.togo i)
  | .togoReady i => some (.togoReady i)

/-- The point of `orderInventoryFood` in the round of the item `i`. -/
def InventoryAt.supply (i : ℕ) : InventoryAt → Option SupplyAt
  | .enter => some (.enter i)
  | .look => some (.look i)
  | .refill => some (.refill i)
  | .bank => some (.bank i)
  | .buy => none
  | .loaded => some (.loaded i)

/-- The point of a routine at which a thread of the simulation is. -/
def Pc.routineAt : Pc → Option RoutineAt
  -- the `Acquire` of `WaitInLineToEnterRest` is the call of `chooseEatIn`, with what stands before it
  | .customer (.joinLineToEnter id) => some (.waitInLineToEnterRest id .join)
  | .customer (.leaveLineToEnter id) => some (.waitInLineToEnterRest id .leave)
  | .customer (.lineToOrder id _) => some (.waitInLineToOrderFood id .enter)
  | .customer (.joinLineToOrder id _) => some (.waitInLineToOrderFood id .join)
  | .customer (.called id _) => some (.waitInLineToOrderFood id .called)
  | .customer (.meet id _) => some (.waitInLineToOrderFood id .meet)
  | .customer (.leaveTable _) => some (.releaseTable .enter)
  | .customer (.freeTable _) => some (.releaseTable .free)
  | .manager (.service id _ p) | .orderTaker (.service id p) => p.serving.map (.serviceCustomer id)
  | .manager (.bag _ p) => p.bagging.map (.bagOrder true)
  | .orderTaker (.bag _ p) => p.bagging.map (.bagOrder false)
  | .manager (.inventory _ i p) => (p.supply i).map .orderInventoryFood
  | _ => none

/-- The points at which a routine starts. -/
def RoutineAt.isStart : RoutineAt → Bool
  | .waitInLineToEnterRest _ p => p = .enter
  | .waitInLineToOrderFood _ p => p = .enter
  | .serviceCustomer _ p => p = .enter
  | .bagOrder _ p => p = .enter
  | .orderInventoryFood p => p = .enter 0
  | .releaseTable p => p = .enter

/-- A thread goes on in the routine; once it has returned, it is in none, or at a start. -/
def GoesOn (pc : Pc) : Option RoutineAt → Prop
  | some r => pc.routineAt = some r
  | none => ∀ r ∈ pc.routineAt, r.isStart

/-- What a thread does up to its next call is what the routine does. -/
structure LikeSegment (a : Act Pc) (b : Segment Memory RoutineAt) : Prop where
  holds : Holds a.shared b.state
  call : switchCall a.op = some b.call
  next : GoesOn a.pc b.next

/-- After the print `a`, with no other thread in between. -/
def AfterPrint (random : ℕ) (a b : Act Pc) : Prop :=
  a.op = .yield ∧ b = program a.pc random a.shared

/-- After some prints, the thread does what the routine does. -/
def PrintsThen (random : ℕ) (a : Act Pc) (b : Segment Memory RoutineAt) : Prop :=
  ∃ a', ReflTransGen (AfterPrint random) a a' ∧ LikeSegment a' b

theorem PrintsThen.now {random : ℕ} {a : Act Pc} {b : Segment Memory RoutineAt}
    (h : LikeSegment a b) : PrintsThen random a b :=
  ⟨a, .refl, h⟩

theorem PrintsThen.print {random : ℕ} {a : Act Pc} {b : Segment Memory RoutineAt}
    (h : PrintsThen random (program a.pc random a.shared) b) (hprint : a.op = .yield) :
    PrintsThen random a b := by
  obtain ⟨a', hprints, hlike⟩ := h
  exact ⟨a', .head ⟨hprint, rfl⟩ hprints, hlike⟩

theorem PrintsThen.prints {random : ℕ} {a a' : Act Pc} {b : Segment Memory RoutineAt}
    (hprints : ReflTransGen (AfterPrint random) a a') (h : PrintsThen random a' b) :
    PrintsThen random a b := by
  obtain ⟨a'', hprints', hlike⟩ := h
  exact ⟨a'', hprints.trans hprints', hlike⟩

/-! ## The customer -/

section

variable {s : Shared} {m : Memory}

theorem customer_like_threaded (hs : Holds s m) {random : ℕ} {p : CustomerAt} {r : RoutineAt}
    (hat : (Pc.customer p).routineAt = some r) :
    LikeSegment (program (.customer p) random s) (Threaded.run m r) := by
  have hline : m .countLineToEnterRestLength = s.countLineToEnterRestLength := hs _ _ rfl
  have horders : m .countLineToOrderFoodLength = s.countLineToOrderFoodLength := hs _ _ rfl
  cases p <;> simp only [Pc.routineAt, Option.some.injEq, reduceCtorEq] at hat <;> subst hat
  case joinLineToEnter id =>
    simp only [Threaded.run, Threaded.waitInLineToEnterRest, hline]
    have hjoin := hs.setLineToEnterRest s.countLineToEnterRestLength id
    have hlength : m.set (.lineToEnterRest s.countLineToEnterRestLength) id
        .countLineToEnterRestLength = s.countLineToEnterRestLength := hjoin _ _ rfl
    rw [hlength]
    exact ⟨hjoin.setCountLineToEnterRestLength (s.countLineToEnterRestLength + 1), rfl, rfl⟩
  case leaveLineToEnter id =>
    simp only [Threaded.run, Threaded.waitInLineToEnterRest, hline]
    have hstart : GoesOn (.customer (.lineToOrder id true)) none := by
      rintro r ⟨⟩
      rfl
    by_cases hempty : s.countLineToEnterRestLength = 0
    · have hsame : { s with countLineToEnterRestLength := s.countLineToEnterRestLength - 1 } = s := by
        rw [hempty, Nat.zero_sub, ← hempty]
      rw [if_neg (by omega)]
      refine ⟨?_, rfl, hstart⟩
      show Holds { s with countLineToEnterRestLength := s.countLineToEnterRestLength - 1 } m
      rwa [hsame]
    · have hlength : (s.countLineToEnterRestLength : ℤ) - 1 =
          (s.countLineToEnterRestLength - 1 : ℕ) := by omega
      rw [if_pos (by omega), hlength]
      exact ⟨hs.setCountLineToEnterRestLength (s.countLineToEnterRestLength - 1), rfl, hstart⟩
  case lineToOrder id eatIn => exact ⟨hs, rfl, rfl⟩
  case joinLineToOrder id eatIn =>
    simp only [Threaded.run, Threaded.waitInLineToOrderFood, horders]
    have hjoin := hs.setLineToOrderFood s.countLineToOrderFoodLength id
    have hlength : m.set (.lineToOrderFood s.countLineToOrderFoodLength) id
        .countLineToOrderFoodLength = s.countLineToOrderFoodLength := hjoin _ _ rfl
    rw [hlength]
    exact ⟨hjoin.setCountLineToOrderFoodLength (s.countLineToOrderFoodLength + 1), rfl, rfl⟩
  case called id eatIn =>
    have horderTaker : m (.getOrderTakerIDFromCustomerID id) = s.getOrderTakerIDFromCustomerID id :=
      hs _ _ rfl
    simp only [Threaded.run, Threaded.waitInLineToOrderFood, horderTaker]
    exact ⟨hs, rfl, rfl⟩
  case meet id eatIn => exact ⟨hs, rfl, nofun⟩
  case leaveTable id => exact ⟨hs, rfl, rfl⟩
  case freeTable id =>
    have htables : m .countNumTablesAvailable = s.countNumTablesAvailable := hs _ _ rfl
    simp only [Threaded.run, Threaded.releaseTable, htables]
    exact ⟨(hs.setCountNumTablesAvailable (s.countNumTablesAvailable + 1)).history _, rfl, nofun⟩

/-! ## The order taker and the manager -/

/-- A routine that a thread calls, with the points of it that are points of a `RoutineAt`. -/
structure Calls {α : Type} (k : Option α → Pc) (routine : Shared → α → Act (Option α))
    (at_ : α → Option RoutineAt) : Prop where
  program : ∀ p random s, Restaurant.program (k (some p)) random s = (routine s p).map k
  here : ∀ p, (k (some p)).routineAt = at_ p
  returned : GoesOn (k none) none

/-- `serviceCustomer`, called by an order taker. -/
theorem orderTaker_calls_serviceCustomer (id : ℕ) :
    Calls (fun
      | some p => .orderTaker (.service id p)
      | none => .orderTaker (.bag id .enter))
      (serviceCustomer id) fun p => p.serving.map (.serviceCustomer id) where
  program p random s := by
    simp only [program, orderTaker, Action.map_map]
    congr 1
    funext p
    cases p <;> rfl
  here p := rfl
  returned := by
    rintro r ⟨⟩
    rfl

/-- `serviceCustomer`, called by the manager. -/
theorem manager_calls_serviceCustomer (id rounds : ℕ) :
    Calls (fun
      | some p => .manager (.service id rounds p)
      | none =>
        match rounds with
        | 0 => .manager (.bag id .enter)
        | rounds + 1 => .manager (.service id rounds .enter))
      (serviceCustomer id) fun p => p.serving.map (.serviceCustomer id) where
  program p random s := rfl
  here p := rfl
  returned := by
    cases rounds <;> (rintro r ⟨⟩; rfl)

/-- `bagOrder`, called by an order taker. -/
theorem orderTaker_calls_bagOrder (id : ℕ) :
    Calls (fun
      | some p => .orderTaker (.bag id p)
      | none => .orderTaker (.exit id .enter))
      (bagOrder false) fun p => p.bagging.map (.bagOrder false) where
  program p random s := by
    simp only [program, orderTaker, Action.map_map]
    congr 1
    funext p
    cases p <;> rfl
  here p := rfl
  returned := by rintro r ⟨⟩

/-- `bagOrder`, called by the manager. -/
theorem manager_calls_bagOrder (id : ℕ) :
    Calls (fun
      | some p => .manager (.bag id p)
      | none => .manager (.callWaiter id))
      (bagOrder true) fun p => p.bagging.map (.bagOrder true) where
  program p random s := rfl
  here p := rfl
  returned := by rintro r ⟨⟩

/-- **`serviceCustomer`**: its two prints stand before a signal and before a release. -/
theorem serviceCustomer_like_threaded {k : Option ServiceAt → Pc} {id : ℕ}
    (hk : Calls k (serviceCustomer id) fun p => p.serving.map (.serviceCustomer id)) (hs : Holds s m)
    (random : ℕ) {p : ServiceAt} {q : ServingAt} (hat : p.serving = some q) :
    PrintsThen random (program (k (some p)) random s) (Threaded.run m (.serviceCustomer id q)) := by
  have hchoice : m (.getCustomerOrderFoodChoiceFromOrderTakerID id) =
      s.getCustomerOrderFoodChoiceFromOrderTakerID id := hs _ _ rfl
  rw [hk.program]
  cases p <;> simp only [ServiceAt.serving, Option.some.injEq, reduceCtorEq] at hat <;> subst hat
  case look =>
    have hline : m .countLineToOrderFoodLength = s.countLineToOrderFoodLength := hs _ _ rfl
    simp only [Threaded.run, Threaded.serviceCustomer, serviceCustomer, hline]
    by_cases hempty : s.countLineToOrderFoodLength = 0
    · rw [if_pos hempty, if_pos (by omega)]
      exact .now ⟨hs, rfl, hk.returned⟩
    · have hlength : (s.countLineToOrderFoodLength : ℤ) - 1 =
          (s.countLineToOrderFoodLength - 1 : ℕ) := by omega
      have hcustomer : m (.lineToOrderFood (s.countLineToOrderFoodLength - 1 : ℕ)) =
          s.lineToOrderFood (s.countLineToOrderFoodLength - 1) := hs _ _ rfl
      rw [if_neg hempty, if_neg (by omega), hlength, hcustomer]
      have htaken := (hs.setCountLineToOrderFoodLength
        (s.countLineToOrderFoodLength - 1)).setGetOrderTakerIDFromCustomerID
        (s.lineToOrderFood (s.countLineToOrderFoodLength - 1)) id
      exact .now ⟨htaken, rfl, hk.here _⟩
  case paid custID =>
    have hcounter : m .orderNumCounter = s.orderNumCounter := hs _ _ rfl
    simp only [Threaded.run, Threaded.serviceCustomer, serviceCustomer, hcounter]
    have hnumbered := ((hs.setOrderNumCounter (s.orderNumCounter + 1)).setOrderNumberFromCustomerID
      custID s.orderNumCounter).history
        { s.history with numbered := s.history.numbered ++ [(custID, s.orderNumCounter)] }
    have hsaved := hnumbered.setGetCustomerIDFromToken s.orderNumCounter custID
    split_ifs
    · refine .print ?_ rfl
      simp only [Action.map, hk.program]
      exact .now ⟨hsaved, rfl, hk.here _⟩
    · exact .now ⟨hsaved, rfl, hk.here _⟩
  case add custID token =>
    simp only [Threaded.run, Threaded.serviceCustomer, serviceCustomer, hchoice]
    refine .print ?_ rfl
    simp only [Action.map, hk.program]
    exact .now ⟨(hs.setOrdersNeedingBagging token
      (s.getCustomerOrderFoodChoiceFromOrderTakerID id)).history _, rfl, hk.here _⟩
  case leave custID token => exact .now ⟨hs, rfl, hk.returned⟩
  all_goals exact .now ⟨hs, rfl, hk.here _⟩

/-- **`orderInventoryFood`**: its print stands between the deposit and the purchase. -/
theorem orderInventoryFood_like_threaded (hs : Holds s m) (random id i : ℕ) {p : InventoryAt}
    {q : SupplyAt} (hat : p.supply i = some q) :
    PrintsThen random (program (.manager (.inventory id i p)) random s)
      (Threaded.run m (.orderInventoryFood q)) := by
  have hcount : m (.inventoryCount i) = s.inventoryCount i := hs _ _ rfl
  have hcost : m (.inventoryCost i) = s.inventoryCost i := hs _ _ rfl
  have hmoney : m .moneyRest = s.moneyRest := hs _ _ rfl
  have hnext : GoesOn
      (if i + 1 < numInventoryItemTypes then .manager (.inventory id (i + 1) .enter)
        else .manager (.cook id 1 .enter)) ((SupplyAt.after i).map .orderInventoryFood) := by
    rw [SupplyAt.after]
    split_ifs
    · rfl
    · rintro r ⟨⟩
  cases p <;> simp only [InventoryAt.supply, Option.some.injEq, reduceCtorEq] at hat <;> subst hat
  case enter => exact .now ⟨hs, rfl, rfl⟩
  case look =>
    simp only [Threaded.run, Threaded.orderInventoryFood, program, manager, orderInventoryFood,
      hcount]
    by_cases hstock : s.inventoryCount i ≤ 0
    · simp only [if_pos hstock]
      exact .now ⟨hs, rfl, rfl⟩
    · simp only [if_neg hstock]
      exact .now ⟨hs, rfl, hnext⟩
  case refill =>
    simp only [Threaded.run, Threaded.orderInventoryFood, program, manager, orderInventoryFood,
      hcost, hmoney]
    by_cases hlow : s.moneyRest < s.inventoryCost i * 5
    · simp only [if_pos hlow]
      exact .now ⟨hs, rfl, rfl⟩
    · simp only [if_neg hlow]
      have hpaid := hs.setMoneyRest (s.moneyRest - s.inventoryCost i * 5)
      have hcount' : m.set .moneyRest (s.moneyRest - s.inventoryCost i * 5) (.inventoryCount i) =
          s.inventoryCount i := hpaid _ _ rfl
      rw [hcount']
      exact .now ⟨hpaid.setInventoryCount i (s.inventoryCount i + 5), rfl, rfl⟩
  case bank =>
    refine .print ?_ rfl
    have hbank := hs.setMoneyRest (s.moneyRest + s.inventoryCost i * 2 * (5 + 5))
    have hmoney' : m.set .moneyRest (s.moneyRest + s.inventoryCost i * 2 * (5 + 5)) .moneyRest =
        s.moneyRest + s.inventoryCost i * 2 * (5 + 5) := hbank _ _ rfl
    have hcost' : m.set .moneyRest (s.moneyRest + s.inventoryCost i * 2 * (5 + 5))
        (.inventoryCost i) = s.inventoryCost i := hbank _ _ rfl
    have hpaid := hbank.setMoneyRest
      (s.moneyRest + s.inventoryCost i * 2 * (5 + 5) - s.inventoryCost i * 5)
    have hcount' := hpaid (.inventoryCount i) _ rfl
    simp only [Threaded.run, Threaded.orderInventoryFood, program, manager, orderInventoryFood,
      hcost, hmoney, hmoney', hcost', hcount', Action.map]
    exact .now ⟨hpaid.setInventoryCount i (s.inventoryCount i + 5), rfl, rfl⟩
  case loaded => exact .now ⟨hs, rfl, hnext⟩

/-! ### `bagOrder` -/

theorem testBit_natCast (n j : ℕ) : (n : ℤ).testBit j = n.testBit j := rfl

theorem clearItem_natCast (n j : ℕ) : clearItem n j = (n ^^^ (1 <<< j) : ℕ) := rfl

/-- **The items of an order**: there is a print for each that is bagged, and then the order is
    looked at as a whole. -/
theorem bagItems_like_threaded {k : Option BagAt → Pc} {isManager : Bool}
    (hk : Calls k (bagOrder isManager) fun p => p.bagging.map (.bagOrder isManager)) (random i : ℕ)
    {j rest : ℕ} (hrest : numInventoryItemTypes - (j + 1) = rest) (hs : Holds s m) :
    ∃ s', ReflTransGen (AfterPrint random) ((bagOrder isManager s (.scan i (j + 1))).map k)
        ((bagComplete s' i (bagOrders (i + 1) (countMaxNumCustomers - (i + 1)))).map k) ∧
      Holds s' (Threaded.bagItems i (j + 1) rest m) := by
  induction rest generalizing j s m with
  | zero =>
    refine ⟨s, ?_, hs⟩
    rw [bagOrder, hrest, bagItems]
  | succ rest ih =>
    have hrest' : numInventoryItemTypes - (j + 1 + 1) = rest := by omega
    have horder : m (.ordersNeedingBagging i) = s.ordersNeedingBagging i := hs _ _ rfl
    have hcooked : m (.cookedFoodStacks (j + 1 : ℕ)) = s.cookedFoodStacks (j + 1) := hs _ _ rfl
    rw [bagOrder, hrest, bagItems, Threaded.bagItems, horder, hcooked, testBit_natCast]
    by_cases hitem : (s.ordersNeedingBagging i).testBit (j + 1) ∧ 0 < s.cookedFoodStacks (j + 1)
    · rw [if_pos hitem, if_pos hitem, clearItem_natCast]
      have hbag := hs.setOrdersNeedingBagging i (s.ordersNeedingBagging i ^^^ (1 <<< (j + 1)))
      have hcooked' := hbag (.cookedFoodStacks (j + 1 : ℕ)) _ rfl
      simp only [hcooked']
      have htaken := hbag.setCookedFoodStacks (j + 1) (s.cookedFoodStacks (j + 1) - 1)
      obtain ⟨s', hprints, hs'⟩ := ih hrest' htaken
      refine ⟨s', .head ⟨rfl, ?_⟩ hprints, hs'⟩
      exact (hk.program _ _ _).symm
    · rw [if_neg hitem, if_neg hitem]
      obtain ⟨s', hprints, hs'⟩ := ih hrest' hs
      refine ⟨s', ?_, hs'⟩
      rwa [bagOrder, hrest'] at hprints

/-- **The orders** from `i` on. -/
theorem bagOrders_like_threaded {k : Option BagAt → Pc} {isManager : Bool}
    (hk : Calls k (bagOrder isManager) fun p => p.bagging.map (.bagOrder isManager)) (random : ℕ)
    {i rest : ℕ} (hrest : countMaxNumCustomers - i = rest) (hs : Holds s m) :
    PrintsThen random ((bagOrders i rest s).map k)
      ((Threaded.bagOrders i rest m).map (.bagOrder isManager)) := by
  induction rest generalizing i s m with
  | zero => exact .now ⟨hs, rfl, hk.returned⟩
  | succ rest ih =>
    have hrest' : countMaxNumCustomers - (i + 1) = rest := by omega
    have horder : m (.ordersNeedingBagging i) = s.ordersNeedingBagging i := hs _ _ rfl
    rw [Threaded.bagOrders, horder]
    by_cases hpositive : 0 < s.ordersNeedingBagging i
    · -- the items are those of a scan from item 1 on
      have hscan : bagOrders i (rest + 1) s = bagOrder isManager s (.scan i (0 + 1)) := by
        rw [bagOrders, if_pos hpositive, bagOrder, hrest']
      obtain ⟨s', hprints, hs'⟩ := bagItems_like_threaded hk random i (j := 0) rfl hs
      rw [if_pos (by exact_mod_cast hpositive), hscan]
      refine .prints hprints ?_
      have hs' : Holds s' (Threaded.bagItems i 1 (numInventoryItemTypes - 1) m) := hs'
      generalize Threaded.bagItems i 1 (numInventoryItemTypes - 1) m = m' at hs' ⊢
      have horder' : m' (.ordersNeedingBagging i) = s'.ordersNeedingBagging i := hs' _ _ rfl
      rw [bagComplete, hrest']
      simp only [horder', Nat.cast_le_one]
      by_cases hcomplete : s'.ordersNeedingBagging i ≤ 1
      · have hdone := hs'.setOrdersNeedingBagging i 0
        have hcustomer : m'.set (.ordersNeedingBagging i) 0 (.getCustomerIDFromToken i) =
            s'.getCustomerIDFromToken i := hdone _ _ rfl
        have heatIn : m'.set (.ordersNeedingBagging i) 0
            (.getCustomerTogoOrEatinFromCustomerID (s'.getCustomerIDFromToken i)) =
            (s'.getCustomerTogoOrEatinFromCustomerID (s'.getCustomerIDFromToken i)).toNat :=
          hdone _ _ rfl
        rw [if_pos hcomplete, if_pos hcomplete]
        simp only [hcustomer, heatIn]
        cases s'.getCustomerTogoOrEatinFromCustomerID (s'.getCustomerIDFromToken i)
        · exact .now ⟨hdone, rfl, hk.here _⟩
        · exact .now ⟨hdone, rfl, hk.here _⟩
      · rw [if_neg hcomplete, if_neg hcomplete]
        exact ih hrest' hs'
    · have hskip : bagOrders i (rest + 1) s = bagOrders (i + 1) rest s := by
        rw [bagOrders, if_neg hpositive]
      rw [if_neg (by exact_mod_cast hpositive), hskip]
      exact ih hrest' hs

/-- **`bagOrder`** prints between the items. -/
theorem bagOrder_like_threaded {k : Option BagAt → Pc} {isManager : Bool}
    (hk : Calls k (bagOrder isManager) fun p => p.bagging.map (.bagOrder isManager)) (hs : Holds s m)
    (random : ℕ) {p : BagAt} {q : BaggingAt} (hat : p.bagging = some q) :
    PrintsThen random (program (k (some p)) random s)
      (Threaded.run m (.bagOrder isManager q)) := by
  rw [hk.program]
  cases p
  case scan i j =>
    cases j with
    | zero =>
      cases hat
      exact bagOrders_like_threaded hk random rfl hs
    | succ j => cases hat
  all_goals cases hat
  case eatIn i =>
    have hcount : m .countNumOrdersBaggedAndReady = s.countNumOrdersBaggedAndReady := hs _ _ rfl
    have hput := hs.setBaggedOrders s.countNumOrdersBaggedAndReady i
    have hcount' : m.set (.baggedOrders s.countNumOrdersBaggedAndReady) i
        .countNumOrdersBaggedAndReady = s.countNumOrdersBaggedAndReady := hput _ _ rfl
    have hready := hput.setCountNumOrdersBaggedAndReady (s.countNumOrdersBaggedAndReady + 1)
    simp only [Threaded.run, Threaded.bagOrder, bagOrder, hcount, hcount']
    cases isManager
    · exact .now ⟨hready, rfl, hk.here _⟩
    · exact .now ⟨hready, rfl, hk.here _⟩
  case togo i => exact .now ⟨hs.setListOrdersReadyFromToken i, rfl, hk.here _⟩
  case togoReady i => exact .now ⟨hs, rfl, hk.here _⟩
  all_goals exact .now ⟨hs, rfl, hk.here _⟩

/-! ## The threads -/

/-- **A thread** at a point of a routine goes on as the routine does, but for its prints of
    `PrintOutV`. -/
theorem program_like_threaded (hs : Holds s m) (random : ℕ) {pc : Pc} {r : RoutineAt}
    (hat : pc.routineAt = some r) :
    PrintsThen random (program pc random s) (Threaded.run m r) := by
  cases pc with
  | customer p => exact .now (customer_like_threaded hs hat)
  | manager p =>
    cases p <;> simp only [Pc.routineAt, Option.map_eq_some_iff, reduceCtorEq] at hat
    case service id rounds p =>
      obtain ⟨q, hq, rfl⟩ := hat
      exact serviceCustomer_like_threaded (manager_calls_serviceCustomer id rounds) hs random hq
    case bag id p =>
      obtain ⟨q, hq, rfl⟩ := hat
      exact bagOrder_like_threaded (manager_calls_bagOrder id) hs random hq
    case inventory id i p =>
      obtain ⟨q, hq, rfl⟩ := hat
      exact orderInventoryFood_like_threaded hs random id i hq
  | orderTaker p =>
    cases p <;> simp only [Pc.routineAt, Option.map_eq_some_iff, reduceCtorEq] at hat
    case service id p =>
      obtain ⟨q, hq, rfl⟩ := hat
      exact serviceCustomer_like_threaded (orderTaker_calls_serviceCustomer id) hs random hq
    case bag id p =>
      obtain ⟨q, hq, rfl⟩ := hat
      exact bagOrder_like_threaded (orderTaker_calls_bagOrder id) hs random hq
  | main | waiter | cook => cases hat

/-- **Prints** are steps of the simulation. -/
theorem exec_prints {random : ℕ} {a b : Act Pc} (hprints : ReflTransGen (AfterPrint random) a b)
    {M : Simulation} {t : ℕ} {pc : Pc} (hpc : M.pc t = some pc) (ht : M.status t = .ready)
    (ha : a = program pc random M.shared) :
    ∃ prints M', exec simulationStep M (List.replicate prints (t, random)) = .ok M' ∧
      simulationStep M' (t, random) = .ok (after M' t b) := by
  induction hprints using ReflTransGen.head_induction_on generalizing M pc with
  | refl => exact ⟨0, M, rfl, by rw [step_after hpc ht, ha]⟩
  | @head a _ hprint _ ih =>
    obtain ⟨hop, hnext⟩ := hprint
    have hstep : simulationStep M (t, random) = .ok (M.compute t a.shared a.pc) := by
      rw [step_after hpc ht, ← ha, after, hop]
      rfl
    obtain ⟨prints, M', hexec, hlast⟩ :=
      ih (M := M.compute t a.shared a.pc) (Function.update_self ..) ht hnext
    refine ⟨prints + 1, M', ?_, hlast⟩
    rw [List.replicate_succ, exec_cons_ok hstep]
    exact hexec

/-- **In the simulation** a thread at a point of a routine that runs alone makes some prints, and
    then the routine's call, with the routine's variables. -/
theorem simulation_like_threaded {M : Simulation} {t : ℕ} {pc : Pc} {r : RoutineAt}
    (hpc : M.pc t = some pc) (ht : M.status t = .ready) (hat : pc.routineAt = some r) (random : ℕ) :
    ∃ prints M' a, exec simulationStep M (List.replicate prints (t, random)) = .ok M' ∧
      simulationStep M' (t, random) = .ok (after M' t a) ∧
      LikeSegment a (Threaded.run M.shared.memory r) := by
  obtain ⟨a, hprints, hlike⟩ := program_like_threaded M.shared.holds_memory random hat
  obtain ⟨prints, M', hexec, hstep⟩ := exec_prints hprints hpc ht rfl
  exact ⟨prints, M', a, hexec, hstep, hlike⟩

end

end Nachos.Restaurant
