import Nachos.Restaurant.Types

/-!
# The restaurant's routines

The routines of `threads/simulation.cc`. A point of a routine is what it does up to its next call
and the call. Prints with no access to a shared variable between them and the call before are left
out; the other ones, in a row, are one `yield`, and so are the rounds of `Yield`.

* `program`: what a thread does next.
* `bagOrder_writes`, `bagOrder_calls`: what the loops of `bagOrder` write and call.
-/

namespace Nachos.Restaurant

open Nachos.Threads

/-! ## Points of the routines -/

/-- `serviceCustomer` (simulation.cc:1020). -/
inductive ServiceAt
  | enter
  | look
  | chosen (custID : ℕ)
  | acquired (custID : ℕ)
  | ask (custID : ℕ)
  | ordered (custID : ℕ)
  | respond (custID : ℕ)
  | paid (custID : ℕ)
  | numbered (custID token : ℕ)
  | told (custID token : ℕ)
  | add (custID token : ℕ)
  | added (custID token : ℕ)
  | leave (custID token : ℕ)
  deriving DecidableEq

/-- `bagOrder` (simulation.cc:1098). -/
inductive BagAt
  | enter
  /-- The order `i`, with the food items from `j` on. -/
  | scan (i j : ℕ)
  | eatIn (i : ℕ)
  | callWaiters (i : ℕ)
  | eatInReady (i : ℕ)
  | togo (i : ℕ)
  | togoReady (i : ℕ)
  deriving DecidableEq

/-- `Customer`, with `WaitInLineToEnterRest` and `WaitInLineToOrderFood` (simulation.cc:308). -/
inductive CustomerAt
  | start
  | create
  | chooseEatIn (id : ℕ)
  -- `WaitInLineToEnterRest`
  | joinLineToEnter (id : ℕ)
  | leaveLineToEnter (id : ℕ)
  -- `WaitInLineToOrderFood`
  | lineToOrder (id : ℕ) (eatIn : Bool)
  | joinLineToOrder (id : ℕ) (eatIn : Bool)
  | called (id : ℕ) (eatIn : Bool)
  | meet (id : ℕ) (eatIn : Bool)
  -- with the order taker
  | order (id : ℕ) (eatIn : Bool)
  | ordered (id : ℕ) (eatIn : Bool)
  | awaitResponse (id : ℕ) (eatIn : Bool)
  | pay (id : ℕ) (eatIn : Bool)
  | paid (id : ℕ) (eatIn : Bool)
  | getToken (id : ℕ) (eatIn : Bool)
  | prepare (id : ℕ) (eatIn : Bool) (token : ℕ)
  -- eat-in
  | sit (id token : ℕ)
  | seated (id : ℕ)
  | awaitFood (id : ℕ)
  | served (id : ℕ)
  | eat (id : ℕ)
  | leaveTable (id : ℕ)
  | freeTable (id : ℕ)
  -- to-go
  | stand (id token : ℕ)
  | checkOrder (id token : ℕ)
  | awaitOrder (id token : ℕ)
  | takeOrder (id token : ℕ)
  -- both
  | leave (id : ℕ)
  | count (id : ℕ)
  | counted (id : ℕ)
  | gone (id : ℕ)
  deriving DecidableEq

/-- `shouldExit` (simulation.cc:1267). -/
inductive ExitAt
  | enter
  | look
  deriving DecidableEq

/-- One round of `orderInventoryFood` (simulation.cc:729). -/
inductive InventoryAt
  | enter
  | look
  | refill
  | bank
  | buy
  | loaded
  deriving DecidableEq

/-- One round of `manageCook`, with `hireCook` (simulation.cc:785). -/
inductive ManageCookAt
  | enter
  | look
  -- `hireCook`
  | hire
  | awaitCook
  | hired
  -- the cook is hired
  | bringBack
  | sendOnBreak
  | leave
  deriving DecidableEq

/-- `checkLineToEnterRest` (simulation.cc:851). -/
inductive CheckLineAt
  | enter
  | look
  | seat (custID : ℕ)
  | leave
  deriving DecidableEq

/-- `Manager` (simulation.cc:652), with `callWaiter`. -/
inductive ManagerAt
  | start
  | create
  | created (id : ℕ)
  | loop (id : ℕ)
  | look (id : ℕ)
  | helping (id : ℕ)
  /-- In `serviceCustomer`, with `rounds` more to go. -/
  | service (id rounds : ℕ) (p : ServiceAt)
  | bag (id : ℕ) (p : BagAt)
  | callWaiter (id : ℕ)
  | callWaiterLook (id : ℕ)
  | callWaiterLeave (id : ℕ)
  | inventory (id i : ℕ) (p : InventoryAt)
  | cook (id i : ℕ) (p : ManageCookAt)
  | line (id : ℕ) (p : CheckLineAt)
  | exit (id : ℕ) (p : ExitAt)
  | exited (id : ℕ) (exit : Bool)
  deriving DecidableEq

/-- `OrderTaker` (simulation.cc:990). -/
inductive OrderTakerAt
  | start
  | create
  | created (id : ℕ)
  | service (id : ℕ) (p : ServiceAt)
  | bag (id : ℕ) (p : BagAt)
  | exit (id : ℕ) (p : ExitAt)
  | exited (id : ℕ) (exit : Bool)
  deriving DecidableEq

/-- `Cook` (simulation.cc:894). -/
inductive CookAt
  | start
  | take
  | informed (id : ℕ)
  | loop (id : ℕ)
  | look (id : ℕ)
  | goOnBreak (id : ℕ)
  | cook (id : ℕ)
  | fetch (id : ℕ)
  | cooking (id : ℕ)
  | put (id : ℕ)
  | exit (id : ℕ) (p : ExitAt)
  | exited (id : ℕ)
  deriving DecidableEq

/-- `Waiter` (simulation.cc:1184). -/
inductive WaiterAt
  | start
  | create
  | loop (id : ℕ)
  | look (id : ℕ)
  | goOnBreak (id : ℕ)
  | serve (id token : ℕ)
  | signal (id token : ℕ)
  | awaitCustomer (id token : ℕ)
  | signalAgain (id token : ℕ)
  | leave (id token : ℕ)
  deriving DecidableEq

/-- What `Fork` is given. -/
inductive Routine
  | customer
  | manager
  | orderTaker
  | waiter
  | cook
  deriving DecidableEq

/-- A point of the program. The main thread has a list of routines to fork. -/
inductive Pc
  | main (routines : List Routine)
  | customer (p : CustomerAt)
  | manager (p : ManagerAt)
  | orderTaker (p : OrderTakerAt)
  | waiter (p : WaiterAt)
  | cook (p : CookAt)
  deriving DecidableEq

def Routine.start : Routine → Pc
  | .customer => .customer .start
  | .manager => .manager .start
  | .orderTaker => .orderTaker .start
  | .waiter => .waiter .start
  | .cook => .cook .start

/-- What a routine does up to its next call. -/
abbrev Act (α : Type) := Action LockName CVName α Shared

variable {α : Type}

/-! ## Routines that others call -/

/-- `serviceCustomer`, called by the order taker or manager `id`; `none` when it returns. -/
def serviceCustomer (id : ℕ) (s : Shared) : ServiceAt → Act (Option ServiceAt)
  | .enter => ⟨s, .acquire .lineToOrderFood, some .look⟩
  | .look =>
    if s.countLineToOrderFoodLength = 0 then ⟨s, .release .lineToOrderFood, none⟩
    else
      let custID := s.lineToOrderFood (s.countLineToOrderFoodLength - 1)
      ⟨{ s with
          countLineToOrderFoodLength := s.countLineToOrderFoodLength - 1
          getOrderTakerIDFromCustomerID :=
            Function.update s.getOrderTakerIDFromCustomerID custID id },
        .signal (.lineToOrderFood custID) .lineToOrderFood, some (.chosen custID)⟩
  | .chosen custID => ⟨s, .acquire (.orderTakerBusy id), some (.acquired custID)⟩
  | .acquired custID => ⟨s, .release .lineToOrderFood, some (.ask custID)⟩
  | .ask custID => ⟨s, .wait (.orderTakerBusy id) (.orderTakerBusy id), some (.ordered custID)⟩
  | .ordered custID =>
    ⟨s, .signal (.orderTakerBusy id) (.orderTakerBusy id), some (.respond custID)⟩
  | .respond custID => ⟨s, .wait (.orderTakerBusy id) (.orderTakerBusy id), some (.paid custID)⟩
  | .paid custID =>
    let token := s.orderNumCounter
    let s := { s with
      orderNumCounter := s.orderNumCounter + 1
      orderNumberFromCustomerID := Function.update s.orderNumberFromCustomerID custID token
      history := { s.history with numbered := s.history.numbered ++ [(custID, token)] } }
    if s.getCustomerOrderFoodChoiceFromOrderTakerID id ≠ 1 then
      ⟨s, .yield, some (.numbered custID token)⟩
    else
      ⟨{ s with getCustomerIDFromToken := Function.update s.getCustomerIDFromToken token custID },
        .signal (.orderTakerBusy id) (.orderTakerBusy id), some (.told custID token)⟩
  | .numbered custID token =>
    ⟨{ s with getCustomerIDFromToken := Function.update s.getCustomerIDFromToken token custID },
      .signal (.orderTakerBusy id) (.orderTakerBusy id), some (.told custID token)⟩
  | .told custID token => ⟨s, .acquire .ordersNeedingBagging, some (.add custID token)⟩
  | .add custID token =>
    let choice := s.getCustomerOrderFoodChoiceFromOrderTakerID id
    ⟨{ s with
        ordersNeedingBagging := Function.update s.ordersNeedingBagging token choice
        history := { s.history with entered := s.history.entered ++ [(token, choice)] } },
      .yield, some (.added custID token)⟩
  | .added custID token => ⟨s, .release .ordersNeedingBagging, some (.leave custID token)⟩
  | .leave _ _ => ⟨s, .release (.orderTakerBusy id), none⟩

/-- The items of the order `i` from `j` on, with `rest` of them to go, up to the first one that is
    bagged; if there is none, whether the order is complete. -/
def bagItems (s : Shared) (i j : ℕ) : ℕ → Shared × Option ℕ
  | 0 => (s, none)
  | rest + 1 =>
    if (s.ordersNeedingBagging i).testBit j ∧ 0 < s.cookedFoodStacks j then
      ({ s with
          ordersNeedingBagging :=
            Function.update s.ordersNeedingBagging i (s.ordersNeedingBagging i ^^^ (1 <<< j))
          cookedFoodStacks := Function.update s.cookedFoodStacks j (s.cookedFoodStacks j - 1) },
        some (j + 1))
    else bagItems s i (j + 1) rest

/-- The order `i` has been looked through: is it complete, and for whom? -/
def bagComplete (s : Shared) (i : ℕ) (go : Shared → Act (Option BagAt)) : Act (Option BagAt) :=
  if s.ordersNeedingBagging i ≤ 1 then
    let s := { s with ordersNeedingBagging := Function.update s.ordersNeedingBagging i 0 }
    if s.getCustomerTogoOrEatinFromCustomerID (s.getCustomerIDFromToken i) then
      ⟨s, .acquire .baggedOrders, some (.eatIn i)⟩
    else ⟨s, .acquire .orderReady, some (.togo i)⟩
  else go s

/-- The orders from `i` on, with `rest` of them to go, up to the next call. -/
def bagOrders (i : ℕ) : ℕ → Shared → Act (Option BagAt)
  | 0, s => ⟨s, .release .ordersNeedingBagging, none⟩
  | rest + 1, s =>
    if 0 < s.ordersNeedingBagging i then
      match bagItems s i 1 (numInventoryItemTypes - 1) with
      | (s, some j) => ⟨s, .yield, some (.scan i j)⟩
      | (s, none) => bagComplete s i (bagOrders (i + 1) rest)
    else bagOrders (i + 1) rest s

/-- `bagOrder`. -/
def bagOrder (isManager : Bool) (s : Shared) : BagAt → Act (Option BagAt)
  | .enter => ⟨s, .acquire .ordersNeedingBagging, some (.scan 0 0)⟩
  | .scan i 0 => bagOrders i (countMaxNumCustomers - i) s
  | .scan i (j + 1) =>
    match bagItems s i (j + 1) (numInventoryItemTypes - (j + 1)) with
    | (s, some j) => ⟨s, .yield, some (.scan i j)⟩
    | (s, none) => bagComplete s i (bagOrders (i + 1) (countMaxNumCustomers - (i + 1)))
  | .eatIn i =>
    let s := { s with
      baggedOrders := Function.update s.baggedOrders s.countNumOrdersBaggedAndReady i
      countNumOrdersBaggedAndReady := s.countNumOrdersBaggedAndReady + 1 }
    if isManager then ⟨s, .yield, some (.callWaiters i)⟩
    else ⟨s, .broadcast .baggedOrders .baggedOrders, some (.eatInReady i)⟩
  | .callWaiters i => ⟨s, .broadcast .baggedOrders .baggedOrders, some (.eatInReady i)⟩
  | .eatInReady i => ⟨s, .release .baggedOrders, some (.scan (i + 1) 0)⟩
  | .togo i =>
    ⟨{ s with listOrdersReadyFromToken := Function.update s.listOrdersReadyFromToken i true },
      .broadcast .orderReady .orderReady, some (.togoReady i)⟩
  | .togoReady i => ⟨s, .release .orderReady, some (.scan (i + 1) 0)⟩

/-- `shouldExit`, with its result when it returns. -/
def shouldExit (s : Shared) : ExitAt → Act (ExitAt ⊕ Bool)
  | .enter => ⟨s, .acquire .initialization, .inl .look⟩
  | .look =>
    ⟨s, .release .initialization,
      .inr (s.countNumCustomersServed = s.countWhenAllCustomersServed)⟩

/-! ## The customer -/

/-- The menu item that the customer orders. -/
def orderCombo (s : Shared) (id : ℕ) : ℕ :=
  s.testAllCustomersOrderThisCombo.getD (2 * (id % numInventoryItemTypes))

/-- `Customer`; `random` is the result of `randomNumber(2)`. -/
def customer (random : ℕ) (s : Shared) : CustomerAt → Act CustomerAt
  | .start => ⟨s, .acquire .initialization, .create⟩
  | .create =>
    ⟨{ s with countNumCustomers := s.countNumCustomers + 1 }, .release .initialization,
      .chooseEatIn s.countNumCustomers⟩
  | .chooseEatIn id =>
    let eatIn :=
      if s.testAllCustomersEatIn then true
      else if s.testAllCustomersEatOut then false
      else decide (random % 2 ≠ 0)
    if eatIn then ⟨s, .acquire .lineToEnterRest, .joinLineToEnter id⟩
    else ⟨s, .acquire .lineToOrderFood, .joinLineToOrder id false⟩
  | .joinLineToEnter id =>
    ⟨{ s with
        lineToEnterRest := Function.update s.lineToEnterRest s.countLineToEnterRestLength id
        countLineToEnterRestLength := s.countLineToEnterRestLength + 1 },
      .wait (.lineToEnterRest id) .lineToEnterRest, .leaveLineToEnter id⟩
  | .leaveLineToEnter id =>
    -- at length 0 there is only a print
    ⟨{ s with countLineToEnterRestLength := s.countLineToEnterRestLength - 1 },
      .release .lineToEnterRest, .lineToOrder id true⟩
  | .lineToOrder id eatIn => ⟨s, .acquire .lineToOrderFood, .joinLineToOrder id eatIn⟩
  | .joinLineToOrder id eatIn =>
    ⟨{ s with
        lineToOrderFood := Function.update s.lineToOrderFood s.countLineToOrderFoodLength id
        countLineToOrderFoodLength := s.countLineToOrderFoodLength + 1 },
      .wait (.lineToOrderFood id) .lineToOrderFood, .called id eatIn⟩
  | .called id eatIn =>
    ⟨s, .acquire (.orderTakerBusy (s.getOrderTakerIDFromCustomerID id)), .meet id eatIn⟩
  | .meet id eatIn => ⟨s, .release .lineToOrderFood, .order id eatIn⟩
  | .order id eatIn =>
    let choice := s.menu (orderCombo s id)
    ⟨{ s with
        getCustomerOrderFoodChoiceFromOrderTakerID :=
          Function.update s.getCustomerOrderFoodChoiceFromOrderTakerID
            (s.getOrderTakerIDFromCustomerID id) choice
        getCustomerTogoOrEatinFromCustomerID :=
          Function.update s.getCustomerTogoOrEatinFromCustomerID id eatIn
        history := { s.history with ordered := s.history.ordered ++ [(id, choice, eatIn)] } },
      .yield, .ordered id eatIn⟩
  | .ordered id eatIn =>
    let orderTaker := s.getOrderTakerIDFromCustomerID id
    ⟨s, .signal (.orderTakerBusy orderTaker) (.orderTakerBusy orderTaker), .awaitResponse id eatIn⟩
  | .awaitResponse id eatIn =>
    let orderTaker := s.getOrderTakerIDFromCustomerID id
    ⟨s, .wait (.orderTakerBusy orderTaker) (.orderTakerBusy orderTaker), .pay id eatIn⟩
  | .pay id eatIn =>
    let orderTaker := s.getOrderTakerIDFromCustomerID id
    ⟨{ s with
        getCustomerMoneyPaidFromOrderTakerID :=
          Function.update s.getCustomerMoneyPaidFromOrderTakerID orderTaker
            (s.inventoryCost (s.getCustomerOrderFoodChoiceFromOrderTakerID orderTaker) * 2) },
      .signal (.orderTakerBusy orderTaker) (.orderTakerBusy orderTaker), .paid id eatIn⟩
  | .paid id eatIn =>
    let orderTaker := s.getOrderTakerIDFromCustomerID id
    ⟨s, .wait (.orderTakerBusy orderTaker) (.orderTakerBusy orderTaker), .getToken id eatIn⟩
  | .getToken id eatIn =>
    let token := s.orderNumberFromCustomerID id
    let s' := { s with history := { s.history with tokens := s.history.tokens ++ [(id, token)] } }
    if orderCombo s id ≠ 0 ∨ eatIn then ⟨s', .yield, .prepare id eatIn token⟩
    else ⟨s', .acquire .orderReady, .stand id token⟩
  | .prepare id eatIn token =>
    if eatIn then ⟨s, .acquire (.customerSitting id), .sit id token⟩
    else ⟨s, .acquire .orderReady, .stand id token⟩
  | .sit id _ =>
    ⟨s, .release (.orderTakerBusy (s.getOrderTakerIDFromCustomerID id)), .seated id⟩
  | .seated id => ⟨s, .signal (.customerSitting id) (.customerSitting id), .awaitFood id⟩
  | .awaitFood id => ⟨s, .wait (.customerSitting id) (.customerSitting id), .served id⟩
  | .served id => ⟨s, .signal (.customerSitting id) (.customerSitting id), .eat id⟩
  | .eat id => ⟨s, .release (.customerSitting id), .leaveTable id⟩
  | .leaveTable id => ⟨s, .acquire .lineToEnterRest, .freeTable id⟩
  | .freeTable id =>
    ⟨{ s with
        countNumTablesAvailable := s.countNumTablesAvailable + 1
        history := { s.history with left := s.history.left ++ [id] } },
      .release .lineToEnterRest, .leave id⟩
  | .stand id token =>
    ⟨s, .release (.orderTakerBusy (s.getOrderTakerIDFromCustomerID id)), .checkOrder id token⟩
  | .checkOrder id token =>
    if s.listOrdersReadyFromToken token then ⟨s, .yield, .takeOrder id token⟩
    else ⟨s, .yield, .awaitOrder id token⟩
  | .awaitOrder id token => ⟨s, .wait .orderReady .orderReady, .checkOrder id token⟩
  | .takeOrder id token =>
    ⟨{ s with listOrdersReadyFromToken := Function.update s.listOrdersReadyFromToken token false },
      .release .orderReady, .leave id⟩
  | .leave id => ⟨s, .acquire .initialization, .count id⟩
  | .count id =>
    ⟨{ s with countNumCustomersServed := s.countNumCustomersServed + 1 }, .yield, .counted id⟩
  | .counted id => ⟨s, .release .initialization, .gone id⟩
  | .gone id => ⟨s, .finish, .gone id⟩

/-! ## The manager -/

/-- One round of `orderInventoryFood`; `none` at its end. -/
def orderInventoryFood (i : ℕ) (s : Shared) : InventoryAt → Act (Option InventoryAt)
  | .enter => ⟨s, .acquire (.inventory i), some .look⟩
  | .look =>
    if s.inventoryCount i ≤ 0 then ⟨s, .yield, some .refill⟩
    else ⟨s, .release (.inventory i), none⟩
  | .refill =>
    if s.moneyRest < s.inventoryCost i * 5 then ⟨s, .yield, some .bank⟩
    else
      ⟨{ s with
          moneyRest := s.moneyRest - s.inventoryCost i * 5
          inventoryCount := Function.update s.inventoryCount i (s.inventoryCount i + 5) },
        .yield, some .loaded⟩
  | .bank =>
    ⟨{ s with moneyRest := s.moneyRest + s.inventoryCost i * 2 * (5 + 5) }, .yield, some .buy⟩
  | .buy =>
    ⟨{ s with
        moneyRest := s.moneyRest - s.inventoryCost i * 5
        inventoryCount := Function.update s.inventoryCount i (s.inventoryCount i + 5) },
      .yield, some .loaded⟩
  | .loaded => ⟨s, .release (.inventory i), none⟩

/-- One round of `manageCook`, with `hireCook`; `none` at its end. -/
def manageCook (go : Option ManageCookAt → Pc) (i : ℕ) (s : Shared) : ManageCookAt → Act Pc
  | .enter => ⟨s, .acquire (.inventory i), go (some .look)⟩
  | .look =>
    if s.cookedFoodStacks i < s.minCookedFoodStacks i ∧ s.testNoCooks = false then
      if s.getCookIsHiredFromInventoryIndex i = 0 then ⟨s, .acquire .hireCook, go (some .hire)⟩
      else if s.getCookOnBreakFromInventoryIndex i then ⟨s, .yield, go (some .bringBack)⟩
      else ⟨s, .signal (.inventory i) (.inventory i), go (some .leave)⟩
    else if s.maxCookedFoodStacks i < s.cookedFoodStacks i ∧
        s.getCookOnBreakFromInventoryIndex i = false then
      ⟨s, .yield, go (some .sendOnBreak)⟩
    else ⟨s, .release (.inventory i), go none⟩
  | .hire =>
    ⟨{ s with
        getCookIsHiredFromInventoryIndex :=
          Function.update s.getCookIsHiredFromInventoryIndex i (-1)
        indexCkInventoryIndex := i },
      .fork (.cook .start), go (some .awaitCook)⟩
  | .awaitCook => ⟨s, .wait .hireCook .hireCook, go (some .hired)⟩
  | .hired => ⟨s, .release .hireCook, go (some .leave)⟩
  | .bringBack =>
    ⟨{ s with
        getCookOnBreakFromInventoryIndex :=
          Function.update s.getCookOnBreakFromInventoryIndex i false },
      .signal (.inventory i) (.inventory i), go (some .leave)⟩
  | .sendOnBreak =>
    ⟨{ s with
        getCookOnBreakFromInventoryIndex :=
          Function.update s.getCookOnBreakFromInventoryIndex i true },
      .release (.inventory i), go none⟩
  | .leave => ⟨s, .release (.inventory i), go none⟩

/-- `checkLineToEnterRest`; `none` when it returns. At length 0 it reads `lineToEnterRest[-1]` and
    does not use it. -/
def checkLineToEnterRest (s : Shared) : CheckLineAt → Act (Option CheckLineAt)
  | .enter => ⟨s, .acquire .lineToEnterRest, some .look⟩
  | .look =>
    let custID := s.lineToEnterRest (s.countLineToEnterRestLength - 1)
    if 0 < s.countLineToEnterRestLength ∧ 0 < s.countNumTablesAvailable then
      ⟨s, .yield, some (.seat custID)⟩
    else ⟨s, .release .lineToEnterRest, none⟩
  | .seat custID =>
    ⟨{ s with
        countNumTablesAvailable := s.countNumTablesAvailable - 1
        history := { s.history with admitted := s.history.admitted ++ [custID] } },
      .signal (.lineToEnterRest custID) .lineToEnterRest, some .leave⟩
  | .leave => ⟨s, .release .lineToEnterRest, none⟩

/-- `Manager`. -/
def manager (s : Shared) : ManagerAt → Act Pc
  | .start => ⟨s, .acquire .initialization, .manager .create⟩
  | .create =>
    ⟨{ s with
        countNumOrderTakers := s.countNumOrderTakers + 1
        countNumManagers := s.countNumManagers + 1 },
      .yield, .manager (.created s.countNumOrderTakers)⟩
  | .created id => ⟨s, .release .initialization, .manager (.loop id)⟩
  | .loop id => ⟨s, .acquire .lineToOrderFood, .manager (.look id)⟩
  | .look id =>
    if 3 * (s.countNumOrderTakers - s.countNumManagers) < s.countLineToOrderFoodLength then
      ⟨s, .yield, .manager (.helping id)⟩
    else ⟨s, .release .lineToOrderFood, .manager (.bag id .enter)⟩
  | .helping id => ⟨s, .release .lineToOrderFood, .manager (.service id 1 .enter)⟩
  | .service id rounds p =>
    (serviceCustomer id s p).map fun
      | some p => .manager (.service id rounds p)
      | none =>
        match rounds with
        | 0 => .manager (.bag id .enter)
        | rounds + 1 => .manager (.service id rounds .enter)
  | .bag id p =>
    (bagOrder true s p).map fun
      | some p => .manager (.bag id p)
      | none => .manager (.callWaiter id)
  | .callWaiter id => ⟨s, .acquire .mrWr, .manager (.callWaiterLook id)⟩
  | .callWaiterLook id =>
    if 0 < s.countNumOrdersBaggedAndReady then
      ⟨s, .broadcast .mrWr .mrWr, .manager (.callWaiterLeave id)⟩
    else ⟨s, .release .mrWr, .manager (.inventory id 0 .enter)⟩
  | .callWaiterLeave id => ⟨s, .release .mrWr, .manager (.inventory id 0 .enter)⟩
  | .inventory id i p =>
    (orderInventoryFood i s p).map fun
      | some p => .manager (.inventory id i p)
      | none =>
        if i + 1 < numInventoryItemTypes then .manager (.inventory id (i + 1) .enter)
        else .manager (.cook id 1 .enter)
  | .cook id i p =>
    manageCook
      (fun
        | some p => .manager (.cook id i p)
        | none =>
          if i + 1 < numInventoryItemTypes then .manager (.cook id (i + 1) .enter)
          else .manager (.line id .enter))
      i s p
  | .line id p =>
    (checkLineToEnterRest s p).map fun
      | some p => .manager (.line id p)
      | none => .manager (.exit id .enter)
  | .exit id p =>
    (shouldExit s p).map fun
      | .inl p => .manager (.exit id p)
      | .inr exit => .manager (.exited id exit)
  | .exited id true => ⟨s, .finish, .manager (.exited id true)⟩
  | .exited id false => ⟨s, .yield, .manager (.loop id)⟩

/-! ## The order taker, the cook and the waiter -/

/-- `OrderTaker`. -/
def orderTaker (s : Shared) : OrderTakerAt → Act OrderTakerAt
  | .start => ⟨s, .acquire .initialization, .create⟩
  | .create =>
    ⟨{ s with countNumOrderTakers := s.countNumOrderTakers + 1 }, .yield,
      .created s.countNumOrderTakers⟩
  | .created id => ⟨s, .release .initialization, .service id .enter⟩
  | .service id p =>
    (serviceCustomer id s p).map fun
      | some p => .service id p
      | none => .bag id .enter
  | .bag id p =>
    (bagOrder false s p).map fun
      | some p => .bag id p
      | none => .exit id .enter
  | .exit id p =>
    (shouldExit s p).map fun
      | .inl p => .exit id p
      | .inr exit => .exited id exit
  | .exited id true => ⟨s, .finish, .exited id true⟩
  | .exited id false => ⟨s, .yield, .service id .enter⟩

/-- `Cook`. -/
def cook (s : Shared) : CookAt → Act CookAt
  | .start => ⟨s, .acquire .hireCook, .take⟩
  | .take =>
    ⟨{ s with
        getCookIsHiredFromInventoryIndex :=
          Function.update s.getCookIsHiredFromInventoryIndex s.indexCkInventoryIndex 1 },
      .signal .hireCook .hireCook, .informed s.indexCkInventoryIndex⟩
  | .informed id => ⟨s, .release .hireCook, .loop id⟩
  | .loop id => ⟨s, .acquire (.inventory id), .look id⟩
  | .look id =>
    if s.getCookOnBreakFromInventoryIndex id then ⟨s, .yield, .goOnBreak id⟩
    else if 0 < s.inventoryCount id then ⟨s, .yield, .fetch id⟩
    else ⟨s, .release (.inventory id), .exit id .enter⟩
  | .goOnBreak id => ⟨s, .wait (.inventory id) (.inventory id), .cook id⟩
  | .cook id =>
    if 0 < s.inventoryCount id then ⟨s, .yield, .fetch id⟩
    else ⟨s, .release (.inventory id), .exit id .enter⟩
  | .fetch id =>
    ⟨{ s with inventoryCount := Function.update s.inventoryCount id (s.inventoryCount id - 1) },
      .release (.inventory id), .cooking id⟩
  | .cooking id => ⟨s, .acquire (.inventory id), .put id⟩
  | .put id =>
    ⟨{ s with
        cookedFoodStacks := Function.update s.cookedFoodStacks id (s.cookedFoodStacks id + 1) },
      .release (.inventory id), .exit id .enter⟩
  | .exit id p =>
    (shouldExit s p).map fun
      | .inl p => .exit id p
      | .inr true => .exited id
      | .inr false => .loop id
  | .exited id => ⟨s, .finish, .exited id⟩

/-- `Waiter`. -/
def waiter (s : Shared) : WaiterAt → Act WaiterAt
  | .start => ⟨s, .acquire .initialization, .create⟩
  | .create =>
    ⟨{ s with countNumWaiters := s.countNumWaiters + 1 }, .release .initialization,
      .loop s.countNumWaiters⟩
  | .loop id => ⟨s, .acquire .baggedOrders, .look id⟩
  | .look id =>
    if s.countNumOrdersBaggedAndReady = 0 then ⟨s, .yield, .goOnBreak id⟩
    else
      ⟨{ s with countNumOrdersBaggedAndReady := s.countNumOrdersBaggedAndReady - 1 },
        .release .baggedOrders, .serve id (s.baggedOrders (s.countNumOrdersBaggedAndReady - 1))⟩
  | .goOnBreak id => ⟨s, .wait .baggedOrders .baggedOrders, .look id⟩
  | .serve id token =>
    ⟨s, .acquire (.customerSitting (s.getCustomerIDFromToken token)), .signal id token⟩
  | .signal id token =>
    let custID := s.getCustomerIDFromToken token
    ⟨s, .signal (.customerSitting custID) (.customerSitting custID), .awaitCustomer id token⟩
  | .awaitCustomer id token =>
    let custID := s.getCustomerIDFromToken token
    ⟨s, .wait (.customerSitting custID) (.customerSitting custID), .signalAgain id token⟩
  | .signalAgain id token =>
    let custID := s.getCustomerIDFromToken token
    ⟨s, .signal (.customerSitting custID) (.customerSitting custID), .leave id token⟩
  | .leave id token =>
    ⟨s, .release (.customerSitting (s.getCustomerIDFromToken token)), .loop id⟩

/-! ## The program -/

/-- What a thread does next. -/
def program : Pc → ℕ → Shared → Act Pc
  | .main [], _, s => ⟨s, .finish, .main []⟩
  | .main (routine :: rest), _, s => ⟨s, .fork routine.start, .main rest⟩
  | .customer p, random, s => (customer random s p).map .customer
  | .manager p, _, s => manager s p
  | .orderTaker p, _, s => (orderTaker s p).map .orderTaker
  | .waiter p, _, s => (waiter s p).map .waiter
  | .cook p, _, s => (cook s p).map .cook

/-- The restaurant: its threads, and what they share. -/
abbrev Simulation := Machine LockName CVName Pc Shared

/-- A step of the simulation. -/
abbrev simulationStep : Simulation → ℕ × ℕ → Except Impossible Simulation :=
  Machine.step program

/-- The machine after a call of the thread `t`. -/
abbrev after (m : Simulation) (t : ℕ) (a : Act Pc) : Simulation :=
  (m.compute t a.shared a.pc).perform t a.op

theorem step_after {m : Simulation} {t : ℕ} {r : Pc} (hr : m.pc t = some r)
    (ht : m.status t = .ready) (x : ℕ) :
    simulationStep m (t, x) = .ok (after m t (program r x m.shared)) := by
  simp only [Machine.step, hr, ht]

/-- The number of threads of a kind, if the argument of `RunSimulation` is out of range. -/
def orDefault (n : ℤ) (max default : ℕ) : ℕ :=
  if n < 0 ∨ max < n then default else n.toNat

/-- The threads that `RunSimulation` forks, in order. -/
def forkedRoutines (numOrderTakers numWaiters numCustomers : ℕ) : List Routine :=
  .manager :: List.replicate numCustomers .customer ++
    List.replicate numOrderTakers .orderTaker ++ List.replicate numWaiters .waiter

/-- `RunSimulation` (simulation.cc:215), up to its first `Fork`. -/
def runSimulation (numOrderTakers numWaiters numCustomers : ℤ) : Simulation :=
  let customers := orDefault numCustomers countMaxNumCustomers countDefaultNumCustomers
  let orderTakers :=
    orDefault numOrderTakers countMaxNumOrderTakers countDefaultNumOrderTakers
  let waiters := orDefault numWaiters countMaxNumWaiters countDefaultNumWaiters
  -- the target is set in the branch for an argument out of range only
  let countWhenAllCustomersServed :=
    if numCustomers < 0 ∨ countMaxNumCustomers < numCustomers then customers else 0
  .init (.main (forkedRoutines orderTakers waiters customers))
    (initializeShared countWhenAllCustomersServed)

/-! ## What `bagOrder` does -/

/-- Only the variables of bagging differ. -/
def Bagged (s s' : Shared) : Prop :=
  s' = { s with
    ordersNeedingBagging := s'.ordersNeedingBagging
    cookedFoodStacks := s'.cookedFoodStacks
    baggedOrders := s'.baggedOrders
    countNumOrdersBaggedAndReady := s'.countNumOrdersBaggedAndReady
    listOrdersReadyFromToken := s'.listOrdersReadyFromToken }

theorem Bagged.refl (s : Shared) : Bagged s s := rfl

theorem Bagged.trans {s s' s'' : Shared} (h : Bagged s s') (h' : Bagged s' s'') :
    Bagged s s'' := by
  unfold Bagged at *
  rw [h'] at *
  rw [h]

/-- The calls of `bagOrder`. -/
def BagOp : Op LockName CVName α → Prop
  | .acquire l | .release l => l = .ordersNeedingBagging ∨ l = .baggedOrders ∨ l = .orderReady
  | .broadcast c l =>
    c = .baggedOrders ∧ l = .baggedOrders ∨ c = .orderReady ∧ l = .orderReady
  | .yield => True
  | .wait _ _ | .signal _ _ | .fork _ | .finish => False

theorem bagItems_writes (s : Shared) (i j rest : ℕ) : Bagged s (bagItems s i j rest).1 := by
  induction rest generalizing j with
  | zero => exact Bagged.refl s
  | succ rest ih =>
    unfold bagItems
    split_ifs
    · rfl
    · exact ih (j + 1)

theorem bagComplete_spec {s : Shared} {i : ℕ} {go : Shared → Act (Option BagAt)}
    (hgo : ∀ s, Bagged s (go s).shared ∧ BagOp (go s).op) :
    Bagged s (bagComplete s i go).shared ∧ BagOp (bagComplete s i go).op := by
  unfold bagComplete
  by_cases hcomplete : s.ordersNeedingBagging i ≤ 1
  · rw [if_pos hcomplete]
    simp only
    split_ifs
    · exact ⟨rfl, Or.inr (Or.inl rfl)⟩
    · exact ⟨rfl, Or.inr (Or.inr rfl)⟩
  · rw [if_neg hcomplete]
    exact hgo s

theorem bagOrders_spec (i rest : ℕ) (s : Shared) :
    Bagged s (bagOrders i rest s).shared ∧ BagOp (bagOrders i rest s).op := by
  induction rest generalizing i s with
  | zero => exact ⟨rfl, Or.inl rfl⟩
  | succ rest ih =>
    unfold bagOrders
    split_ifs
    · have hitems := bagItems_writes s i 1 (numInventoryItemTypes - 1)
      split
      next s' j heq =>
        rw [heq] at hitems
        exact ⟨hitems, trivial⟩
      next s' heq =>
        rw [heq] at hitems
        obtain ⟨hwrites, hcalls⟩ := bagComplete_spec (s := s') (i := i) (ih (i + 1))
        exact ⟨hitems.trans hwrites, hcalls⟩
    · exact ih (i + 1) s

theorem bagOrder_spec (isManager : Bool) (s : Shared) (p : BagAt) :
    Bagged s (bagOrder isManager s p).shared ∧ BagOp (bagOrder isManager s p).op := by
  unfold bagOrder
  split
  next => exact ⟨rfl, Or.inl rfl⟩
  next => exact bagOrders_spec _ _ s
  next i j =>
    have hitems := bagItems_writes s i (j + 1) (numInventoryItemTypes - (j + 1))
    split
    next s' j' heq =>
      rw [heq] at hitems
      exact ⟨hitems, trivial⟩
    next s' heq =>
      rw [heq] at hitems
      obtain ⟨hwrites, hcalls⟩ := bagComplete_spec (s := s') (i := i) (bagOrders_spec (i + 1) _)
      exact ⟨hitems.trans hwrites, hcalls⟩
  next i =>
    simp only
    split_ifs
    · exact ⟨rfl, trivial⟩
    · exact ⟨rfl, Or.inl ⟨rfl, rfl⟩⟩
  next => exact ⟨rfl, Or.inl ⟨rfl, rfl⟩⟩
  next => exact ⟨rfl, Or.inr (Or.inl rfl)⟩
  next => exact ⟨rfl, Or.inr ⟨rfl, rfl⟩⟩
  next => exact ⟨rfl, Or.inr (Or.inr rfl)⟩

/-- **What `bagOrder` writes.** -/
theorem bagOrder_writes (isManager : Bool) (s : Shared) (p : BagAt) :
    Bagged s (bagOrder isManager s p).shared :=
  (bagOrder_spec isManager s p).1

/-- **What `bagOrder` calls.** -/
theorem bagOrder_calls (isManager : Bool) (s : Shared) (p : BagAt) :
    BagOp (bagOrder isManager s p).op :=
  (bagOrder_spec isManager s p).2

/-! ### Orders that need no bagging -/

section

variable {n : ℕ}

theorem bagItems_orders {s : Shared} (h : s.ordersNeedingBagging n = 0) (i j rest : ℕ) :
    (bagItems s i j rest).1.ordersNeedingBagging n = 0 := by
  induction rest generalizing j with
  | zero => exact h
  | succ rest ih =>
    unfold bagItems
    split_ifs with hitem
    · have hne : n ≠ i := by
        rintro rfl
        rw [h, Nat.zero_testBit] at hitem
        exact absurd hitem.1 nofun
      exact (Function.update_of_ne hne _ _).trans h
    · exact ih (j + 1)

theorem bagComplete_orders {s : Shared} (h : s.ordersNeedingBagging n = 0) {i : ℕ}
    {go : Shared → Act (Option BagAt)}
    (hgo : ∀ s : Shared, s.ordersNeedingBagging n = 0 → (go s).shared.ordersNeedingBagging n = 0) :
    (bagComplete s i go).shared.ordersNeedingBagging n = 0 := by
  have hzero : Function.update s.ordersNeedingBagging i 0 n = 0 := by
    by_cases hn : n = i
    · rw [hn, Function.update_self]
    · rwa [Function.update_of_ne hn]
  unfold bagComplete
  by_cases hcomplete : s.ordersNeedingBagging i ≤ 1
  · rw [if_pos hcomplete]
    simp only
    split_ifs <;> exact hzero
  · rw [if_neg hcomplete]
    exact hgo s h

theorem bagOrders_orders (i rest : ℕ) {s : Shared} (h : s.ordersNeedingBagging n = 0) :
    (bagOrders i rest s).shared.ordersNeedingBagging n = 0 := by
  induction rest generalizing i s with
  | zero => exact h
  | succ rest ih =>
    unfold bagOrders
    split_ifs
    · have hitems := bagItems_orders h i 1 (numInventoryItemTypes - 1)
      split
      next s' j heq =>
        rw [heq] at hitems
        exact hitems
      next s' heq =>
        rw [heq] at hitems
        exact bagComplete_orders hitems fun s hs => ih (i + 1) hs
    · exact ih (i + 1) h

/-- **An order that needs no bagging** gets no new item. -/
theorem bagOrder_orders {s : Shared} (h : s.ordersNeedingBagging n = 0) (isManager : Bool)
    (p : BagAt) : (bagOrder isManager s p).shared.ordersNeedingBagging n = 0 := by
  unfold bagOrder
  split
  next => exact h
  next => exact bagOrders_orders _ _ h
  next i j =>
    have hitems := bagItems_orders h i (j + 1) (numInventoryItemTypes - (j + 1))
    split
    next s' j' heq =>
      rw [heq] at hitems
      exact hitems
    next s' heq =>
      rw [heq] at hitems
      exact bagComplete_orders hitems fun s hs => bagOrders_orders (i + 1) _ hs
  next =>
    simp only
    split_ifs <;> exact h
  all_goals exact h

end

/-! ## Calls of a kind -/

section

variable {α : Type} {op : Op LockName CVName α}

/-- A call that is no `Fork` forks nothing. -/
theorem not_fork (h : op.weight (fun _ => 1) = 0) {P : α → Prop} (q : α) (hq : op = .fork q) :
    P q := by
  rw [hq] at h
  cases h

def isFinish : Op LockName CVName α → Bool
  | .finish => true
  | _ => false

theorem ne_finish (h : isFinish op = false) : op ≠ .finish := by
  rintro rfl
  cases h

end

end Nachos.Restaurant
