import Nachos.Lib.Relocation
import Nachos.Restaurant.Types

/-!
# The routines as user programs

The routines that exist both in `threads/simulation.cc` and as user programs (`test/simulation.c`,
`customer.c`, `manager.c`), up to each lock, condition, Yield or print call. `PrintOutV` prints
nothing in both of them. Here the threaded routines have their variables in a plain memory, so that
the two can be read side by side; `SameRoutines` shows that they are the routines of the simulation.

In a user program a global is the handle of a monitor variable, and `GetMV` and `SetMV` read and
write its value.
-/

namespace Nachos.Restaurant

/-! ## Variables and calls -/

/-- The variables of the routines. An array has an element at each index. -/
inductive Variable
  | countLineToEnterRestLength
  | lineToEnterRest (i : ℤ)
  | countLineToOrderFoodLength
  | lineToOrderFood (i : ℤ)
  | getOrderTakerIDFromCustomerID (i : ℤ)
  | getCustomerOrderFoodChoiceFromOrderTakerID (i : ℤ)
  | getCustomerTogoOrEatinFromCustomerID (i : ℤ)
  | orderNumberFromCustomerID (i : ℤ)
  | listOrdersReadyFromToken (i : ℤ)
  | getCustomerIDFromToken (i : ℤ)
  | inventoryCount (i : ℤ)
  | inventoryCost (i : ℤ)
  | cookedFoodStacks (i : ℤ)
  | orderNumCounter
  | ordersNeedingBagging (i : ℤ)
  | baggedOrders (i : ℤ)
  | countNumOrdersBaggedAndReady
  | moneyRest
  | countNumTablesAvailable
  deriving DecidableEq

/-- The variables that name a lock. -/
inductive LockVariable
  | lineToEnterRest
  | lineToOrderFood
  | orderTakerBusy (i : ℤ)
  | ordersNeedingBagging
  | baggedOrders
  | orderReady
  | inventory (i : ℤ)
  deriving DecidableEq

/-- The variables that name a condition variable. -/
inductive ConditionVariable
  | lineToEnterRest (i : ℤ)
  | lineToOrderFood (i : ℤ)
  | orderTakerBusy (i : ℤ)
  | baggedOrders
  | orderReady
  deriving DecidableEq

/-- The calls at which a thread is switched. Prints in a row are one `yield`, as is `Yield`. -/
inductive SwitchCall
  | acquire (l : LockVariable)
  | release (l : LockVariable)
  | wait (c : ConditionVariable) (l : LockVariable)
  | signal (c : ConditionVariable) (l : LockVariable)
  | broadcast (c : ConditionVariable) (l : LockVariable)
  | yield
  deriving DecidableEq

/-- What a routine does up to its next call, the call, and where it goes on; `none` when it
    returns. -/
structure Segment (σ π : Type) where
  state : σ
  call : SwitchCall
  next : Option π

def Segment.map {σ π ρ : Type} (f : π → ρ) (a : Segment σ π) : Segment σ ρ :=
  ⟨a.state, a.call, a.next.map f⟩

/-- The variables of the threaded program. -/
abbrev Memory := Variable → ℤ

def Memory.set (m : Memory) (v : Variable) (x : ℤ) : Memory := Function.update m v x

/-- A user program: its globals, and the values of the monitor variables. -/
structure Process where
  globals : Variable → ℤ
  values : ℤ → ℤ

namespace Process

/-- `GetMV(v)`. -/
def getMV (p : Process) (v : Variable) : ℤ := p.values (p.globals v)

/-- `SetMV(v, x)`. -/
def setMV (p : Process) (v : Variable) (x : ℤ) : Process :=
  { p with values := Function.update p.values (p.globals v) x }

/-- An assignment to the global itself. -/
def setGlobal (p : Process) (v : Variable) (x : ℤ) : Process :=
  { p with globals := Function.update p.globals v x }

end Process

/-! ## Points of the routines -/

/-- `WaitInLineToEnterRest`. -/
inductive EnterLineAt
  | enter
  | join
  | leave
  deriving DecidableEq

/-- `WaitInLineToOrderFood`. -/
inductive OrderLineAt
  | enter
  | join
  | called
  | meet
  deriving DecidableEq

/-- `serviceCustomer`. -/
inductive ServingAt
  | enter
  | look
  | chosen (custID : ℤ)
  | acquired (custID : ℤ)
  | ask (custID : ℤ)
  | ordered (custID : ℤ)
  | respond (custID : ℤ)
  | paid (custID : ℤ)
  | told (token : ℤ)
  | add (token : ℤ)
  | leave
  deriving DecidableEq

/-- `bagOrder`. -/
inductive BaggingAt
  | enter
  /-- The orders from `i` on. -/
  | scan (i : ℕ)
  | eatIn (i : ℕ)
  | callWaiters (i : ℕ)
  | eatInReady (i : ℕ)
  | togo (i : ℕ)
  | togoReady (i : ℕ)
  deriving DecidableEq

/-- `orderInventoryFood`, with the item `i`. -/
inductive SupplyAt
  | enter (i : ℕ)
  | look (i : ℕ)
  | refill (i : ℕ)
  | bank (i : ℕ)
  | loaded (i : ℕ)
  deriving DecidableEq

/-- The table release at the end of `Customer`. -/
inductive TableAt
  | enter
  | free
  deriving DecidableEq

/-- A point of any of them. -/
inductive RoutineAt
  | waitInLineToEnterRest (id : ℤ) (p : EnterLineAt)
  | waitInLineToOrderFood (id : ℤ) (p : OrderLineAt)
  | serviceCustomer (id : ℤ) (p : ServingAt)
  | bagOrder (isManager : Bool) (p : BaggingAt)
  | orderInventoryFood (p : SupplyAt)
  | releaseTable (p : TableAt)
  deriving DecidableEq

/-- The next round of `orderInventoryFood`. -/
def SupplyAt.after (i : ℕ) : Option SupplyAt :=
  if i + 1 < numInventoryItemTypes then some (.enter (i + 1)) else none

/-- What an order has once the item `j` is in its bag: `order ^ (1 << j)`. -/
def clearItem (order : ℤ) (j : ℕ) : ℤ := Int.xor order (1 <<< j)

/-! ## The threaded routines -/

namespace Threaded

variable (m : Memory)

/-- `WaitInLineToEnterRest` (threads/simulation.cc:608). -/
def waitInLineToEnterRest (id : ℤ) : EnterLineAt → Segment Memory EnterLineAt
  | .enter => ⟨m, .acquire .lineToEnterRest, some .join⟩
  | .join =>
    let m := m.set (.lineToEnterRest (m .countLineToEnterRestLength)) id
    let m := m.set .countLineToEnterRestLength (m .countLineToEnterRestLength + 1)
    ⟨m, .wait (.lineToEnterRest id) .lineToEnterRest, some .leave⟩
  | .leave =>
    if 0 < m .countLineToEnterRestLength then
      let m := m.set .countLineToEnterRestLength (m .countLineToEnterRestLength - 1)
      ⟨m, .release .lineToEnterRest, none⟩
    else ⟨m, .release .lineToEnterRest, none⟩

/-- `WaitInLineToOrderFood` (threads/simulation.cc:633). -/
def waitInLineToOrderFood (id : ℤ) : OrderLineAt → Segment Memory OrderLineAt
  | .enter => ⟨m, .acquire .lineToOrderFood, some .join⟩
  | .join =>
    let m := m.set (.lineToOrderFood (m .countLineToOrderFoodLength)) id
    let m := m.set .countLineToOrderFoodLength (m .countLineToOrderFoodLength + 1)
    ⟨m, .wait (.lineToOrderFood id) .lineToOrderFood, some .called⟩
  | .called =>
    ⟨m, .acquire (.orderTakerBusy (m (.getOrderTakerIDFromCustomerID id))), some .meet⟩
  | .meet => ⟨m, .release .lineToOrderFood, none⟩

/-- `serviceCustomer` (threads/simulation.cc:1020). -/
def serviceCustomer (id : ℤ) : ServingAt → Segment Memory ServingAt
  | .enter => ⟨m, .acquire .lineToOrderFood, some .look⟩
  | .look =>
    if m .countLineToOrderFoodLength ≤ 0 then ⟨m, .release .lineToOrderFood, none⟩
    else
      let custID := m (.lineToOrderFood (m .countLineToOrderFoodLength - 1))
      let m := m.set .countLineToOrderFoodLength (m .countLineToOrderFoodLength - 1)
      let m := m.set (.getOrderTakerIDFromCustomerID custID) id
      ⟨m, .signal (.lineToOrderFood custID) .lineToOrderFood, some (.chosen custID)⟩
  | .chosen custID => ⟨m, .acquire (.orderTakerBusy id), some (.acquired custID)⟩
  | .acquired custID => ⟨m, .release .lineToOrderFood, some (.ask custID)⟩
  | .ask custID => ⟨m, .wait (.orderTakerBusy id) (.orderTakerBusy id), some (.ordered custID)⟩
  | .ordered custID =>
    ⟨m, .signal (.orderTakerBusy id) (.orderTakerBusy id), some (.respond custID)⟩
  | .respond custID => ⟨m, .wait (.orderTakerBusy id) (.orderTakerBusy id), some (.paid custID)⟩
  | .paid custID =>
    let token := m .orderNumCounter
    let m := m.set .orderNumCounter (m .orderNumCounter + 1)
    let m := m.set (.orderNumberFromCustomerID custID) token
    let m := m.set (.getCustomerIDFromToken token) custID
    ⟨m, .signal (.orderTakerBusy id) (.orderTakerBusy id), some (.told token)⟩
  | .told token => ⟨m, .acquire .ordersNeedingBagging, some (.add token)⟩
  | .add token =>
    let choice := m (.getCustomerOrderFoodChoiceFromOrderTakerID id)
    let m := m.set (.ordersNeedingBagging token) choice
    ⟨m, .release .ordersNeedingBagging, some .leave⟩
  | .leave => ⟨m, .release (.orderTakerBusy id), none⟩

/-- The items of the order `i` from `j` on, with `rest` of them to go. -/
def bagItems (i : ℕ) : ℕ → ℕ → Memory → Memory
  | _, 0, m => m
  | j, rest + 1, m =>
    if (m (.ordersNeedingBagging i)).testBit j ∧ 0 < m (.cookedFoodStacks j) then
      let m := m.set (.ordersNeedingBagging i) (clearItem (m (.ordersNeedingBagging i)) j)
      let m := m.set (.cookedFoodStacks j) (m (.cookedFoodStacks j) - 1)
      bagItems i (j + 1) rest m
    else bagItems i (j + 1) rest m

/-- The orders from `i` on, with `rest` of them to go. -/
def bagOrders (i : ℕ) : ℕ → Memory → Segment Memory BaggingAt
  | 0, m => ⟨m, .release .ordersNeedingBagging, none⟩
  | rest + 1, m =>
    if 0 < m (.ordersNeedingBagging i) then
      let m := bagItems i 1 (numInventoryItemTypes - 1) m
      if m (.ordersNeedingBagging i) ≤ 1 then
        let m := m.set (.ordersNeedingBagging i) 0
        if m (.getCustomerTogoOrEatinFromCustomerID (m (.getCustomerIDFromToken i))) ≠ 0 then
          ⟨m, .acquire .baggedOrders, some (.eatIn i)⟩
        else ⟨m, .acquire .orderReady, some (.togo i)⟩
      else bagOrders (i + 1) rest m
    else bagOrders (i + 1) rest m

/-- `bagOrder` (threads/simulation.cc:1097). -/
def bagOrder (isManager : Bool) : BaggingAt → Segment Memory BaggingAt
  | .enter => ⟨m, .acquire .ordersNeedingBagging, some (.scan 0)⟩
  | .scan i => bagOrders i (countMaxNumCustomers - i) m
  | .eatIn i =>
    let m := m.set (.baggedOrders (m .countNumOrdersBaggedAndReady)) i
    let m := m.set .countNumOrdersBaggedAndReady (m .countNumOrdersBaggedAndReady + 1)
    if isManager then ⟨m, .yield, some (.callWaiters i)⟩
    else ⟨m, .broadcast .baggedOrders .baggedOrders, some (.eatInReady i)⟩
  | .callWaiters i => ⟨m, .broadcast .baggedOrders .baggedOrders, some (.eatInReady i)⟩
  | .eatInReady i => ⟨m, .release .baggedOrders, some (.scan (i + 1))⟩
  | .togo i =>
    ⟨m.set (.listOrdersReadyFromToken i) 1, .broadcast .orderReady .orderReady,
      some (.togoReady i)⟩
  | .togoReady i => ⟨m, .release .orderReady, some (.scan (i + 1))⟩

/-- `orderInventoryFood` (threads/simulation.cc:721). -/
def orderInventoryFood : SupplyAt → Segment Memory SupplyAt
  | .enter i => ⟨m, .acquire (.inventory i), some (.look i)⟩
  | .look i =>
    if m (.inventoryCount i) ≤ 0 then ⟨m, .yield, some (.refill i)⟩
    else ⟨m, .release (.inventory i), SupplyAt.after i⟩
  | .refill i =>
    if m .moneyRest < m (.inventoryCost i) * 5 then ⟨m, .yield, some (.bank i)⟩
    else
      let m := m.set .moneyRest (m .moneyRest - m (.inventoryCost i) * 5)
      let m := m.set (.inventoryCount i) (m (.inventoryCount i) + 5)
      ⟨m, .yield, some (.loaded i)⟩
  | .bank i =>
    -- no call stands between the deposit and the purchase
    let m := m.set .moneyRest (m .moneyRest + m (.inventoryCost i) * 2 * (5 + 5))
    let m := m.set .moneyRest (m .moneyRest - m (.inventoryCost i) * 5)
    let m := m.set (.inventoryCount i) (m (.inventoryCount i) + 5)
    ⟨m, .yield, some (.loaded i)⟩
  | .loaded i => ⟨m, .release (.inventory i), SupplyAt.after i⟩

/-- The table release in `Customer` (threads/simulation.cc:460). -/
def releaseTable : TableAt → Segment Memory TableAt
  | .enter => ⟨m, .acquire .lineToEnterRest, some .free⟩
  | .free =>
    ⟨m.set .countNumTablesAvailable (m .countNumTablesAvailable + 1), .release .lineToEnterRest,
      none⟩

/-- The routine at a point. -/
def run : RoutineAt → Segment Memory RoutineAt
  | .waitInLineToEnterRest id p =>
    (waitInLineToEnterRest m id p).map (.waitInLineToEnterRest id)
  | .waitInLineToOrderFood id p =>
    (waitInLineToOrderFood m id p).map (.waitInLineToOrderFood id)
  | .serviceCustomer id p => (serviceCustomer m id p).map (.serviceCustomer id)
  | .bagOrder isManager p => (bagOrder m isManager p).map (.bagOrder isManager)
  | .orderInventoryFood p => (orderInventoryFood m p).map .orderInventoryFood
  | .releaseTable p => (releaseTable m p).map .releaseTable

end Threaded

/-! ## The user programs -/

namespace Networked

variable (p : Process)

/-- `WaitInLineToEnterRest` (test/customer.c:354). -/
def waitInLineToEnterRest (id : ℤ) : EnterLineAt → Segment Process EnterLineAt
  | .enter => ⟨p, .acquire .lineToEnterRest, some .join⟩
  | .join =>
    let p := p.setMV (.lineToEnterRest (p.getMV .countLineToEnterRestLength)) id
    let p := p.setMV .countLineToEnterRestLength (p.getMV .countLineToEnterRestLength + 1)
    ⟨p, .wait (.lineToEnterRest id) .lineToEnterRest, some .leave⟩
  | .leave =>
    if 0 < p.getMV .countLineToEnterRestLength then
      let p := p.setMV .countLineToEnterRestLength (p.getMV .countLineToEnterRestLength - 1)
      ⟨p, .release .lineToEnterRest, none⟩
    else ⟨p, .release .lineToEnterRest, none⟩

/-- `WaitInLineToOrderFood` (test/customer.c:379). -/
def waitInLineToOrderFood (id : ℤ) : OrderLineAt → Segment Process OrderLineAt
  | .enter => ⟨p, .acquire .lineToOrderFood, some .join⟩
  | .join =>
    -- `lineToOrderFood[count_lineToOrderFoodLength]`, without `GetMV`
    let p := p.setMV (.lineToOrderFood (p.globals .countLineToOrderFoodLength)) id
    let p := p.setMV .countLineToOrderFoodLength (p.getMV .countLineToOrderFoodLength + 1)
    ⟨p, .wait (.lineToOrderFood id) .lineToOrderFood, some .called⟩
  | .called =>
    ⟨p, .acquire (.orderTakerBusy (p.getMV (.getOrderTakerIDFromCustomerID id))), some .meet⟩
  | .meet => ⟨p, .release .lineToOrderFood, none⟩

/-- `serviceCustomer` (test/simulation.c:449). -/
def serviceCustomer (id : ℤ) : ServingAt → Segment Process ServingAt
  | .enter => ⟨p, .acquire .lineToOrderFood, some .look⟩
  | .look =>
    if p.getMV .countLineToOrderFoodLength ≤ 0 then ⟨p, .release .lineToOrderFood, none⟩
    else
      let custID := p.getMV (.lineToOrderFood (p.getMV .countLineToOrderFoodLength - 1))
      let p := p.setMV .countLineToOrderFoodLength (p.getMV .countLineToOrderFoodLength - 1)
      let p := p.setMV (.getOrderTakerIDFromCustomerID custID) id
      ⟨p, .signal (.lineToOrderFood custID) .lineToOrderFood, some (.chosen custID)⟩
  | .chosen custID => ⟨p, .acquire (.orderTakerBusy id), some (.acquired custID)⟩
  | .acquired custID => ⟨p, .release .lineToOrderFood, some (.ask custID)⟩
  | .ask custID => ⟨p, .wait (.orderTakerBusy id) (.orderTakerBusy id), some (.ordered custID)⟩
  | .ordered custID =>
    ⟨p, .signal (.orderTakerBusy id) (.orderTakerBusy id), some (.respond custID)⟩
  | .respond custID => ⟨p, .wait (.orderTakerBusy id) (.orderTakerBusy id), some (.paid custID)⟩
  | .paid custID =>
    let token := p.getMV .orderNumCounter
    let p := p.setMV .orderNumCounter (p.getMV .orderNumCounter + 1)
    let p := p.setMV (.orderNumberFromCustomerID custID) token
    let p := p.setMV (.getCustomerIDFromToken token) custID
    ⟨p, .signal (.orderTakerBusy id) (.orderTakerBusy id), some (.told token)⟩
  | .told token => ⟨p, .acquire .ordersNeedingBagging, some (.add token)⟩
  | .add token =>
    let choice := p.getMV (.getCustomerOrderFoodChoiceFromOrderTakerID id)
    let p := p.setMV (.ordersNeedingBagging token) choice
    ⟨p, .release .ordersNeedingBagging, some .leave⟩
  | .leave => ⟨p, .release (.orderTakerBusy id), none⟩

/-- The items of the order `i` from `j` on, with `rest` of them to go. -/
def bagItems (i : ℕ) : ℕ → ℕ → Process → Process
  | _, 0, p => p
  | j, rest + 1, p =>
    if (p.getMV (.ordersNeedingBagging i)).testBit j ∧ 0 < p.getMV (.cookedFoodStacks j) then
      let p := p.setMV (.ordersNeedingBagging i) (clearItem (p.getMV (.ordersNeedingBagging i)) j)
      let p := p.setMV (.cookedFoodStacks j) (p.getMV (.cookedFoodStacks j) - 1)
      bagItems i (j + 1) rest p
    else bagItems i (j + 1) rest p

/-- The orders from `i` on, with `rest` of them to go. -/
def bagOrders (i : ℕ) : ℕ → Process → Segment Process BaggingAt
  | 0, p => ⟨p, .release .ordersNeedingBagging, none⟩
  | rest + 1, p =>
    if 0 < p.getMV (.ordersNeedingBagging i) then
      let p := bagItems i 1 (numInventoryItemTypes - 1) p
      if p.getMV (.ordersNeedingBagging i) ≤ 1 then
        let p := p.setMV (.ordersNeedingBagging i) 0
        let custID := p.getMV (.getCustomerIDFromToken i)
        if p.getMV (.getCustomerTogoOrEatinFromCustomerID custID) ≠ 0 then
          ⟨p, .acquire .baggedOrders, some (.eatIn i)⟩
        else ⟨p, .acquire .orderReady, some (.togo i)⟩
      else bagOrders (i + 1) rest p
    else bagOrders (i + 1) rest p

/-- `bagOrder` (test/simulation.c:529). -/
def bagOrder (isManager : Bool) : BaggingAt → Segment Process BaggingAt
  | .enter => ⟨p, .acquire .ordersNeedingBagging, some (.scan 0)⟩
  | .scan i => bagOrders i (countMaxNumCustomers - i) p
  | .eatIn i =>
    -- `baggedOrders[count_NumOrdersBaggedAndReady]`, without `GetMV`
    let p := p.setMV (.baggedOrders (p.globals .countNumOrdersBaggedAndReady)) i
    let p := p.setMV .countNumOrdersBaggedAndReady (p.getMV .countNumOrdersBaggedAndReady + 1)
    if isManager then ⟨p, .yield, some (.callWaiters i)⟩
    else ⟨p, .broadcast .baggedOrders .baggedOrders, some (.eatInReady i)⟩
  | .callWaiters i => ⟨p, .broadcast .baggedOrders .baggedOrders, some (.eatInReady i)⟩
  | .eatInReady i => ⟨p, .release .baggedOrders, some (.scan (i + 1))⟩
  | .togo i =>
    ⟨p.setMV (.listOrdersReadyFromToken i) 1, .broadcast .orderReady .orderReady,
      some (.togoReady i)⟩
  | .togoReady i => ⟨p, .release .orderReady, some (.scan (i + 1))⟩

/-- `orderInventoryFood` (test/manager.c:88). -/
def orderInventoryFood : SupplyAt → Segment Process SupplyAt
  | .enter i => ⟨p, .acquire (.inventory i), some (.look i)⟩
  | .look i =>
    if p.getMV (.inventoryCount i) ≤ 0 then ⟨p, .yield, some (.refill i)⟩
    else ⟨p, .release (.inventory i), SupplyAt.after i⟩
  | .refill i =>
    if p.getMV .moneyRest < p.getMV (.inventoryCost i) * 5 then ⟨p, .yield, some (.bank i)⟩
    else
      let p := p.setMV .moneyRest (p.getMV .moneyRest - p.getMV (.inventoryCost i) * 5)
      -- `inventoryCount[i] += numBought`, on the global
      let p := p.setGlobal (.inventoryCount i) (p.globals (.inventoryCount i) + 5)
      ⟨p, .yield, some (.loaded i)⟩
  | .bank i =>
    let p := p.setMV .moneyRest
      (p.getMV .moneyRest + p.getMV (.inventoryCost i) * 2 * (5 + 5))
    let p := p.setMV .moneyRest (p.getMV .moneyRest - p.getMV (.inventoryCost i) * 5)
    let p := p.setGlobal (.inventoryCount i) (p.globals (.inventoryCount i) + 5)
    ⟨p, .yield, some (.loaded i)⟩
  | .loaded i => ⟨p, .release (.inventory i), SupplyAt.after i⟩

/-- The table release in `Customer` (test/customer.c:202). -/
def releaseTable : TableAt → Segment Process TableAt
  | .enter => ⟨p, .acquire .lineToEnterRest, some .free⟩
  | .free =>
    -- `count_NumTablesAvailable += 1`, on the global
    ⟨p.setGlobal .countNumTablesAvailable (p.globals .countNumTablesAvailable + 1),
      .release .lineToEnterRest, none⟩

/-- The routine at a point. -/
def run : RoutineAt → Segment Process RoutineAt
  | .waitInLineToEnterRest id q =>
    (waitInLineToEnterRest p id q).map (.waitInLineToEnterRest id)
  | .waitInLineToOrderFood id q =>
    (waitInLineToOrderFood p id q).map (.waitInLineToOrderFood id)
  | .serviceCustomer id q => (serviceCustomer p id q).map (.serviceCustomer id)
  | .bagOrder isManager q => (bagOrder p isManager q).map (.bagOrder isManager)
  | .orderInventoryFood q => (orderInventoryFood p q).map .orderInventoryFood
  | .releaseTable q => (releaseTable p q).map .releaseTable

end Networked

end Nachos.Restaurant
