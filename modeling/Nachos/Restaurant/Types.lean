import Nachos.Threads.InterleavingLocks

/-!
# The restaurant's data

The locks, the conditions and the shared variables of `threads/simulation.cc`, and
`Initialize`. A lock or a condition is its name, and an array is a function: `GetLock` and
`GetCV` give each element a handle of its own.
-/

namespace Nachos.Restaurant

open Nachos.Threads

/-! ## Constants (simulation.h) -/

def countMaxNumOrderTakers : ℕ := 10
def countMaxNumCustomers : ℕ := 50
def countMaxNumWaiters : ℕ := 10
def countDefaultNumOrderTakers : ℕ := 3
def countDefaultNumCustomers : ℕ := 20
def countDefaultNumWaiters : ℕ := 3
def numInventoryItemTypes : ℕ := 5

/-! ## Locks and conditions -/

/-- The locks. -/
inductive LockName
  | lineToEnterRest
  | lineToOrderFood
  | orderTakerBusy (orderTakerID : ℕ)
  | customerSitting (custID : ℕ)
  | orderReady
  | mrWr
  | inventory (i : ℕ)
  | hireCook
  | ordersNeedingBagging
  | baggedOrders
  | initialization
  deriving DecidableEq

/-- The conditions. -/
inductive CVName
  | lineToEnterRest (custID : ℕ)
  | lineToOrderFood (custID : ℕ)
  | orderTakerBusy (orderTakerID : ℕ)
  | customerSitting (custID : ℕ)
  | orderReady
  | mrWr
  | inventory (i : ℕ)
  | hireCook
  | baggedOrders
  deriving DecidableEq

/-! ## Shared variables -/

/-- What has happened, which no thread reads. -/
structure History where
  /-- The customers that the manager has let in. -/
  admitted : List ℕ
  /-- The customers that have made their table available again. -/
  left : List ℕ
  /-- The customers with the menu choice and the eat-in flag that they have stored. -/
  ordered : List (ℕ × ℕ × Bool)
  /-- The customers and the tokens that an order taker has given them. -/
  numbered : List (ℕ × ℕ)
  /-- The tokens and the orders that an order taker has entered. -/
  entered : List (ℕ × ℕ)
  /-- The customers and the tokens with which they have left the second wait. -/
  tokens : List (ℕ × ℕ)

/-- The monitor variables. -/
structure Shared where
  countNumOrderTakers : ℕ
  countNumCustomers : ℕ
  countNumManagers : ℕ
  countNumWaiters : ℕ
  countLineToEnterRestLength : ℕ
  lineToEnterRest : ℕ → ℕ
  countLineToOrderFoodLength : ℕ
  lineToOrderFood : ℕ → ℕ
  getOrderTakerIDFromCustomerID : ℕ → ℕ
  getCustomerOrderFoodChoiceFromOrderTakerID : ℕ → ℕ
  getCustomerTogoOrEatinFromCustomerID : ℕ → Bool
  getCustomerMoneyPaidFromOrderTakerID : ℕ → ℤ
  orderNumberFromCustomerID : ℕ → ℕ
  listOrdersReadyFromToken : ℕ → Bool
  countNumCustomersServed : ℕ
  countWhenAllCustomersServed : ℕ
  getCustomerIDFromToken : ℕ → ℕ
  menu : ℕ → ℕ
  inventoryCount : ℕ → ℤ
  inventoryCost : ℕ → ℤ
  cookedFoodStacks : ℕ → ℤ
  minCookedFoodStacks : ℕ → ℤ
  maxCookedFoodStacks : ℕ → ℤ
  getCookIsHiredFromInventoryIndex : ℕ → ℤ
  getCookOnBreakFromInventoryIndex : ℕ → Bool
  indexCkInventoryIndex : ℕ
  orderNumCounter : ℕ
  ordersNeedingBagging : ℕ → ℕ
  baggedOrders : ℕ → ℕ
  countNumOrdersBaggedAndReady : ℕ
  moneyRest : ℤ
  countNumTablesAvailable : ℤ
  testAllCustomersEatIn : Bool
  testAllCustomersEatOut : Bool
  testNoCooks : Bool
  /-- `none` for -1. -/
  testAllCustomersOrderThisCombo : Option ℕ
  history : History

/-- `menu` of `Initialize`; the other items are 0. -/
def initialMenu (i : ℕ) : ℕ :=
  [1, 2, 3, 4, 5, 6, 7, 8, 9, 10, 11, 16, 17, 18, 19].getD i 0

/-- What the tests set after `Initialize` (simulationtest.cc). -/
structure TestVariables where
  countNumTablesAvailable : ℤ
  testAllCustomersEatIn : Bool
  testAllCustomersEatOut : Bool
  testNoCooks : Bool
  testAllCustomersOrderThisCombo : Option ℕ

/-- `Initialize` (simulation.cc:107). The target of `shouldExit` is not set in it, and the globals
    that it does not mention are 0. Two of its loops write 50 ids into arrays of 5 and of 10
    (`CV_MrCk_InventoryLocks`, `CV_OrderTakerBusy`, lines 133 and 141); no global that is read is taken
    to lie behind them. -/
def initializeShared (countWhenAllCustomersServed : ℕ) : Shared where
  countNumOrderTakers := 0
  countNumCustomers := 0
  countNumManagers := 0
  countNumWaiters := 0
  countLineToEnterRestLength := 0
  lineToEnterRest _ := 0
  countLineToOrderFoodLength := 0
  lineToOrderFood _ := 0
  getOrderTakerIDFromCustomerID _ := 0
  getCustomerOrderFoodChoiceFromOrderTakerID _ := 0
  getCustomerTogoOrEatinFromCustomerID _ := false
  getCustomerMoneyPaidFromOrderTakerID _ := 0
  orderNumberFromCustomerID _ := 0
  listOrdersReadyFromToken _ := false
  countNumCustomersServed := 0
  countWhenAllCustomersServed := countWhenAllCustomersServed
  getCustomerIDFromToken _ := 0
  menu := initialMenu
  inventoryCount _ := 0
  inventoryCost i := i * 5 + 5
  cookedFoodStacks _ := 0
  minCookedFoodStacks _ := 2
  maxCookedFoodStacks _ := 5
  getCookIsHiredFromInventoryIndex _ := 0
  getCookOnBreakFromInventoryIndex _ := false
  indexCkInventoryIndex := 0
  orderNumCounter := 0
  ordersNeedingBagging _ := 0
  baggedOrders _ := 0
  countNumOrdersBaggedAndReady := 0
  moneyRest := 0
  countNumTablesAvailable := 10
  testAllCustomersEatIn := false
  testAllCustomersEatOut := false
  testNoCooks := false
  testAllCustomersOrderThisCombo := none
  history := ⟨[], [], [], [], [], []⟩

/-- `Initialize` in a test. -/
def initializeTest (countWhenAllCustomersServed : ℕ) (v : TestVariables) : Shared :=
  { initializeShared countWhenAllCustomersServed with
    countNumTablesAvailable := v.countNumTablesAvailable
    testAllCustomersEatIn := v.testAllCustomersEatIn
    testAllCustomersEatOut := v.testAllCustomersEatOut
    testNoCooks := v.testNoCooks
    testAllCustomersOrderThisCombo := v.testAllCustomersOrderThisCombo }

end Nachos.Restaurant
