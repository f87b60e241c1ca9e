import Nachos.Restaurant.Routines

/-!
# Who orders, and who takes orders

What the routines do with the line of those who order, the order takers' locks and conditions, and
the numbers that customers and order takers give themselves.

* `keeps_program`: which of these locks a thread has at each point.
* `mayWait_program`: the condition on which a thread can wait at each point.
* `takes_customer`, `takes_orderTaker`: each takes a number of its own.
-/

namespace Nachos.Restaurant

open Nachos.Lib Nachos.Threads

/-! ## Roles -/

/-- The customer that an order taker is busy with. -/
def ServiceAt.custID : ServiceAt → Option ℕ
  | .enter | .look => none
  | .chosen i | .acquired i | .ask i | .ordered i | .respond i | .paid i => some i
  | .numbered i _ | .told i _ | .add i _ | .added i _ | .leave i _ => some i

/-- The customer's number. -/
def CustomerAt.id : CustomerAt → Option ℕ
  | .start | .create => none
  | .chooseEatIn i | .joinLineToEnter i | .leaveLineToEnter i => some i
  | .lineToOrder i _ | .joinLineToOrder i _ | .called i _ | .meet i _ | .order i _ => some i
  | .ordered i _ | .awaitResponse i _ | .pay i _ | .paid i _ | .getToken i _ => some i
  | .prepare i _ _ | .sit i _ | .seated i | .awaitFood i | .served i | .eat i => some i
  | .leaveTable i | .freeTable i | .stand i _ | .checkOrder i _ | .awaitOrder i _ => some i
  | .takeOrder i _ | .leave i | .count i | .counted i | .gone i => some i

def Pc.customerID : Pc → Option ℕ
  | .customer p => p.id
  | _ => none

/-- The number of an order taker, or of the manager. -/
def Pc.orderTakerID : Pc → Option ℕ
  | .manager .start | .manager .create | .orderTaker .start | .orderTaker .create => none
  | .manager (.created k) | .manager (.loop k) | .manager (.look k) => some k
  | .manager (.helping k) | .manager (.service k _ _) | .manager (.bag k _) => some k
  | .manager (.callWaiter k) | .manager (.callWaiterLook k) => some k
  | .manager (.callWaiterLeave k) | .manager (.inventory k _ _) => some k
  | .manager (.cook k _ _) | .manager (.line k _) | .manager (.exit k _) => some k
  | .manager (.exited k _) => some k
  | .orderTaker (.created k) | .orderTaker (.service k _) | .orderTaker (.bag k _) => some k
  | .orderTaker (.exit k _) | .orderTaker (.exited k _) => some k
  | .main _ | .customer _ | .waiter _ | .cook _ => none

/-- The routine `serviceCustomer` of an order taker, or of the manager. -/
def Pc.serving : Pc → Option (ℕ × ServiceAt)
  | .manager (.service k _ q) | .orderTaker (.service k q) => some (k, q)
  | _ => none

/-! ## Locks -/

/-- The locks that the order taker `k` has in `serviceCustomer`. -/
def ServiceAt.Holds (k : ℕ) : ServiceAt → LockName → Prop
  | .enter, _ => False
  | .look, l | .chosen _, l => l = .lineToOrderFood
  | .acquired _, l => l = .lineToOrderFood ∨ l = .orderTakerBusy k
  | .ask _, l | .ordered _, l | .respond _, l | .paid _, l => l = .orderTakerBusy k
  | .numbered _ _, l | .told _ _, l | .add _ _, l => l = .orderTakerBusy k
  | .added _ _, l | .leave _ _, l => l = .orderTakerBusy k

/-- The locks that a customer has, if `orderTaker i` takes the order of customer `i`. -/
def CustomerAt.Holds (orderTaker : ℕ → ℕ) : CustomerAt → LockName → Prop
  | .joinLineToOrder _ _, l | .called _ _, l => l = .lineToOrderFood
  | .meet i _, l => l = .lineToOrderFood ∨ l = .orderTakerBusy (orderTaker i)
  | .order i _, l | .ordered i _, l | .awaitResponse i _, l => l = .orderTakerBusy (orderTaker i)
  | .pay i _, l | .paid i _, l | .getToken i _, l => l = .orderTakerBusy (orderTaker i)
  | .prepare i _ _, l | .sit i _, l | .stand i _, l => l = .orderTakerBusy (orderTaker i)
  | _, _ => False

/-- The locks of the line and of the order takers that a thread has. -/
def holds (s : Shared) : Pc → LockName → Prop
  | .customer p, l => p.Holds s.getOrderTakerIDFromCustomerID l
  | .manager (.service k _ q), l | .orderTaker (.service k q), l => q.Holds k l
  | _, _ => False

theorem holds_of_serving {s : Shared} {p : Pc} {k : ℕ} {q : ServiceAt}
    (h : p.serving = some (k, q)) (l : LockName) : holds s p l ↔ q.Holds k l := by
  cases p with
  | manager p => cases p <;> cases h; rfl
  | orderTaker p => cases p <;> cases h; rfl
  | _ => cases h

theorem keeps_customer (random : ℕ) (s : Shared) (p : CustomerAt) :
    Machine.Keeps holds s (.customer p) ((customer random s p).map .customer) := by
  constructor
  · intro l
    cases p
    case meet i eatIn =>
      intro hl
      change l = .orderTakerBusy _ at hl
      subst hl
      exact ⟨nofun, Or.inr rfl⟩
    all_goals
      simp only [customer]
      try split_ifs
    all_goals
      simp only [Action.map, Op.map, holds, CustomerAt.Holds]
      try tauto
  · intro q l
    cases p
    all_goals
      simp only [customer]
      try split_ifs
    all_goals exact nofun

/-- The routine that an order taker goes on in. -/
structure ServesOn (k : ℕ) (f : Option ServiceAt → Pc) : Prop where
  goesOn : ∀ q, (f (some q)).serving = some (k, q)
  returns : ∀ k' q, (f none).serving = some (k', q) → q = .enter
  holds_none : ∀ s l, ¬ holds s (f none) l
  orderTakerID : ∀ q, (f q).orderTakerID = some k
  customerID : ∀ q, (f q).customerID = none

/-- **`serviceCustomer`** is called in two routines. -/
theorem program_serving {p : Pc} {k : ℕ} {q : ServiceAt} (h : p.serving = some (k, q)) (x : ℕ)
    (s : Shared) :
    ∃ f, program p x s = (serviceCustomer k s q).map f ∧ ServesOn k f := by
  cases p with
  | manager p =>
    cases p <;> cases h
    case refl rounds =>
      refine ⟨_, rfl, fun _ => rfl, ?_, ?_, ?_, ?_⟩
      · intro k' q hq
        cases rounds <;> cases hq
        rfl
      · intro s l
        cases rounds <;> exact id
      · rintro (- | q)
        · cases rounds <;> rfl
        · rfl
      · rintro (- | q)
        · cases rounds <;> rfl
        · rfl
  | orderTaker p =>
    cases p <;> cases h
    refine ⟨_, by rw [program, orderTaker, Action.map_map], fun _ => rfl, ?_, fun _ _ => id,
      ?_, ?_⟩
    · intro k' q hq
      cases hq
    · rintro (- | q) <;> rfl
    · rintro (- | q) <;> rfl
  | _ => cases h

theorem keeps_service {p : Pc} {k : ℕ} {q : ServiceAt} (h : p.serving = some (k, q)) (s : Shared)
    {f : Option ServiceAt → Pc} (hf : ServesOn k f) :
    Machine.Keeps holds s p ((serviceCustomer k s q).map f) := by
  have hsome (s : Shared) (q : ServiceAt) (l : LockName) : holds s (f (some q)) l ↔ q.Holds k l :=
    holds_of_serving (hf.goesOn q) l
  constructor
  · intro l
    rw [holds_of_serving h]
    cases q
    case acquired i =>
      intro hl
      rw [show ((serviceCustomer k s (.acquired i)).map f).pc = f (some (.ask i)) from rfl,
        hsome] at hl
      change l = .orderTakerBusy k at hl
      subst hl
      exact ⟨nofun, Or.inr rfl⟩
    case added i n =>
      intro hl
      rw [show ((serviceCustomer k s (.added i n)).map f).pc = f (some (.leave i n)) from rfl,
        hsome] at hl
      change l = .orderTakerBusy k at hl
      subst hl
      exact ⟨nofun, rfl⟩
    all_goals
      simp only [serviceCustomer]
      try split_ifs
    all_goals
      simp only [Action.map, Op.map, hsome, ServiceAt.Holds]
      first
        | exact fun hl => absurd hl (hf.holds_none _ _)
        | tauto
  · intro r l
    cases q
    all_goals
      simp only [serviceCustomer]
      try split_ifs
    all_goals exact nofun

/-! ## Elsewhere -/

/-- The points at which a customer orders. -/
def Pc.Orders : Pc → Prop
  | .customer (.joinLineToOrder _ _) | .customer (.called _ _) | .customer (.meet _ _) => True
  | .customer (.order _ _) | .customer (.ordered _ _) | .customer (.awaitResponse _ _) => True
  | .customer (.pay _ _) | .customer (.paid _ _) | .customer (.getToken _ _) => True
  | _ => False

/-- A customer that an order taker has called, and whose order has no number yet. -/
def Pc.Engaged (st : Status LockName CVName) : Pc → Prop
  | .customer (.called _ _) => ∀ c l, st ≠ .waiting c l
  | .customer (.meet _ _) | .customer (.order _ _) | .customer (.ordered _ _) => True
  | .customer (.awaitResponse _ _) | .customer (.pay _ _) | .customer (.paid _ _) => True
  | .customer (.getToken _ _) => ∃ c l, st = .waiting c l
  | _ => False

/-- The conditions that have nothing to do with orders. -/
def CVName.Foreign : CVName → Prop
  | .lineToOrderFood _ | .orderTakerBusy _ => False
  | _ => True

/-- The variables of the orders are the same, but that food has been bagged. -/
structure SameOrders (s s' : Shared) : Prop where
  length : s'.countLineToOrderFoodLength = s.countLineToOrderFoodLength
  line : s'.lineToOrderFood = s.lineToOrderFood
  orderTakerID : s'.getOrderTakerIDFromCustomerID = s.getOrderTakerIDFromCustomerID
  choice : s'.getCustomerOrderFoodChoiceFromOrderTakerID =
    s.getCustomerOrderFoodChoiceFromOrderTakerID
  togo : s'.getCustomerTogoOrEatinFromCustomerID = s.getCustomerTogoOrEatinFromCustomerID
  orderNumber : s'.orderNumberFromCustomerID = s.orderNumberFromCustomerID
  customerID : s'.getCustomerIDFromToken = s.getCustomerIDFromToken
  counter : s'.orderNumCounter = s.orderNumCounter
  bagging : ∀ n, s.ordersNeedingBagging n = 0 → s'.ordersNeedingBagging n = 0
  ordered : s'.history.ordered = s.history.ordered
  numbered : s'.history.numbered = s.history.numbered
  entered : s'.history.entered = s.history.entered
  tokens : s'.history.tokens = s.history.tokens

theorem SameOrders.refl (s : Shared) : SameOrders s s :=
  ⟨rfl, rfl, rfl, rfl, rfl, rfl, rfl, rfl, fun _ h => h, rfl, rfl, rfl, rfl⟩

/-- The counters of the customers and of the order takers are the same. -/
def SameNumbers (s s' : Shared) : Prop :=
  s'.countNumCustomers = s.countNumCustomers ∧ s'.countNumOrderTakers = s.countNumOrderTakers

/-- A call that neither wakes nor delays anyone for an order. -/
def ForeignOp : Op LockName CVName Pc → Prop
  | .wait c _ | .signal c _ | .broadcast c _ => c.Foreign
  | .fork q => q.serving = none ∧ q.customerID = none
  | .acquire _ | .release _ | .yield | .finish => True

/-- **What the other routines do.** -/
structure Aside (s : Shared) (a : Act Pc) : Prop where
  same : SameOrders s a.shared
  call : ForeignOp a.op
  serving : ∀ k q, a.pc.serving = some (k, q) → q = .enter
  engaged : ∀ st, ¬ a.pc.Engaged st

theorem aside_customer (random : ℕ) (s : Shared) {p : CustomerAt} (h : ¬ (Pc.customer p).Orders) :
    Aside s ((customer random s p).map .customer) := by
  cases p
  all_goals first
    | exact absurd trivial h
    | exact ⟨⟨rfl, rfl, rfl, rfl, rfl, rfl, rfl, rfl, fun _ h => h, rfl, rfl, rfl, rfl⟩, trivial,
        nofun, fun _ => not_false⟩
    | skip
  all_goals
    simp only [customer]
    split_ifs
  all_goals
    exact ⟨⟨rfl, rfl, rfl, rfl, rfl, rfl, rfl, rfl, fun _ h => h, rfl, rfl, rfl, rfl⟩, trivial,
      nofun, fun _ => not_false⟩

/-- Where a routine is in another one. -/
theorem Aside.of_map {α : Type} {s : Shared} {a : Act α} {f : α → Pc}
    (hsame : SameOrders s a.shared) (hcall : ForeignOp (a.op.map f))
    (hf : ∀ q, ((f q).serving = none ∨ ∃ k, (f q).serving = some (k, .enter)) ∧
      ∀ st, ¬ (f q).Engaged st) : Aside s (a.map f) := by
  refine ⟨hsame, hcall, ?_, (hf a.pc).2⟩
  intro k q hq
  rcases (hf a.pc).1 with hnone | ⟨k', henter⟩
  · rw [show (a.map f).pc = f a.pc from rfl, hnone] at hq
    cases hq
  · rw [show (a.map f).pc = f a.pc from rfl, henter] at hq
    cases hq
    rfl

theorem sameOrders_bag (isManager : Bool) (s : Shared) (p : BagAt) :
    SameOrders s (bagOrder isManager s p).shared := by
  have horders (n : ℕ) (h : s.ordersNeedingBagging n = 0) := bagOrder_orders h isManager p
  have hwrites := bagOrder_writes isManager s p
  generalize (bagOrder isManager s p).shared = s' at horders hwrites
  rw [hwrites]
  exact ⟨rfl, rfl, rfl, rfl, rfl, rfl, rfl, rfl, horders, rfl, rfl, rfl, rfl⟩

theorem foreign_bag (isManager : Bool) (s : Shared) (p : BagAt) (f : Option BagAt → Pc) :
    ForeignOp ((bagOrder isManager s p).op.map f) := by
  have hcalls := bagOrder_calls isManager s p
  cases hop : (bagOrder isManager s p).op <;> rw [hop] at hcalls <;> first
    | exact trivial
    | exact hcalls.elim
    | skip
  rcases hcalls with ⟨rfl, -⟩ | ⟨rfl, -⟩ <;> exact trivial

theorem aside_cookManager {i : ℕ} {s : Shared} {q : ManageCookAt} {go : Option ManageCookAt → Pc}
    (hgo : ∀ q, (go q).serving = none ∧ ∀ st, ¬ (go q).Engaged st) :
    Aside s (manageCook go i s q) := by
  have hserving (q : Option ManageCookAt) (k : ℕ) (r : ServiceAt)
      (hr : (go q).serving = some (k, r)) : r = .enter := by
    rw [(hgo q).1] at hr
    cases hr
  cases q
  all_goals
    simp only [manageCook]
    try split_ifs
  all_goals
    refine ⟨⟨rfl, rfl, rfl, rfl, rfl, rfl, rfl, rfl, fun _ h => h, rfl, rfl, rfl, rfl⟩, ?_,
      hserving _, (hgo _).2⟩
    first | exact trivial | exact ⟨rfl, rfl⟩

theorem aside_manager (s : Shared) {p : ManagerAt} (h : (Pc.manager p).serving = none) :
    Aside s (manager s p) := by
  have hsame : SameOrders s s := SameOrders.refl s
  cases p
  case service => cases h
  case bag id q =>
    apply Aside.of_map (sameOrders_bag true s q) (foreign_bag true s q _)
    rintro (- | q) <;> exact ⟨Or.inl rfl, fun _ => not_false⟩
  case inventory id i q =>
    apply Aside.of_map
    · cases q
      all_goals
        simp only [orderInventoryFood]
        try split_ifs
      all_goals exact ⟨rfl, rfl, rfl, rfl, rfl, rfl, rfl, rfl, fun _ h => h, rfl, rfl, rfl, rfl⟩
    · cases q
      all_goals
        simp only [orderInventoryFood]
        try split_ifs
      all_goals exact trivial
    · rintro (- | q)
      · simp only
        split_ifs <;> exact ⟨Or.inl rfl, fun _ => not_false⟩
      · exact ⟨Or.inl rfl, fun _ => not_false⟩
  case cook id i q =>
    rw [manager]
    apply aside_cookManager
    rintro (- | q)
    · simp only
      split_ifs <;> exact ⟨rfl, fun _ => not_false⟩
    · exact ⟨rfl, fun _ => not_false⟩
  case line id q =>
    apply Aside.of_map
    · cases q
      all_goals
        simp only [checkLineToEnterRest]
        try split_ifs
      all_goals exact ⟨rfl, rfl, rfl, rfl, rfl, rfl, rfl, rfl, fun _ h => h, rfl, rfl, rfl, rfl⟩
    · cases q
      all_goals
        simp only [checkLineToEnterRest]
        try split_ifs
      all_goals exact trivial
    · rintro (- | q) <;> exact ⟨Or.inl rfl, fun _ => not_false⟩
  case exit id q =>
    apply Aside.of_map
    · cases q <;> exact hsame
    · cases q <;> exact trivial
    · rintro (q | b) <;> exact ⟨Or.inl rfl, fun _ => not_false⟩
  case exited id b => cases b <;> exact ⟨hsame, trivial, nofun, fun _ => not_false⟩
  case helping id =>
    refine ⟨hsame, trivial, ?_, fun _ => not_false⟩
    intro k q hq
    cases hq
    rfl
  case look id =>
    simp only [manager]
    split_ifs <;> exact ⟨hsame, trivial, nofun, fun _ => not_false⟩
  case callWaiterLook id =>
    simp only [manager]
    split_ifs <;> exact ⟨hsame, trivial, nofun, fun _ => not_false⟩
  case create =>
    exact ⟨⟨rfl, rfl, rfl, rfl, rfl, rfl, rfl, rfl, fun _ h => h, rfl, rfl, rfl, rfl⟩, trivial,
      nofun, fun _ => not_false⟩
  all_goals exact ⟨hsame, trivial, nofun, fun _ => not_false⟩

theorem aside_orderTaker (s : Shared) {p : OrderTakerAt} (h : (Pc.orderTaker p).serving = none) :
    Aside s ((orderTaker s p).map .orderTaker) := by
  have hsame : SameOrders s s := SameOrders.refl s
  cases p
  case service => cases h
  case created k =>
    refine ⟨hsame, trivial, ?_, fun _ => not_false⟩
    intro k q hq
    cases hq
    rfl
  case bag id q =>
    rw [orderTaker, Action.map_map]
    apply Aside.of_map (sameOrders_bag false s q) (foreign_bag false s q _)
    rintro (- | q) <;> exact ⟨Or.inl rfl, fun _ => not_false⟩
  case exit id q =>
    rw [orderTaker, Action.map_map]
    apply Aside.of_map
    · cases q <;> exact hsame
    · cases q <;> exact trivial
    · rintro (q | b) <;> exact ⟨Or.inl rfl, fun _ => not_false⟩
  case exited id b =>
    cases b
    · refine ⟨hsame, trivial, ?_, fun _ => not_false⟩
      intro k q hq
      cases hq
      rfl
    · exact ⟨hsame, trivial, nofun, fun _ => not_false⟩
  case create =>
    exact ⟨⟨rfl, rfl, rfl, rfl, rfl, rfl, rfl, rfl, fun _ h => h, rfl, rfl, rfl, rfl⟩, trivial,
      nofun, fun _ => not_false⟩
  case start => exact ⟨hsame, trivial, nofun, fun _ => not_false⟩

theorem aside_cook (s : Shared) (p : CookAt) : Aside s ((cook s p).map .cook) := by
  cases p
  case exit id q =>
    rw [cook, Action.map_map]
    apply Aside.of_map
    · cases q <;> exact SameOrders.refl s
    · cases q <;> exact trivial
    · rintro (q | (- | -)) <;> exact ⟨Or.inl rfl, fun _ => not_false⟩
  all_goals
    simp only [cook]
    try split_ifs
  all_goals
    exact ⟨⟨rfl, rfl, rfl, rfl, rfl, rfl, rfl, rfl, fun _ h => h, rfl, rfl, rfl, rfl⟩, trivial,
      nofun, fun _ => not_false⟩

theorem aside_waiter (s : Shared) (p : WaiterAt) : Aside s ((waiter s p).map .waiter) := by
  cases p
  all_goals
    simp only [waiter]
    try split_ifs
  all_goals
    exact ⟨⟨rfl, rfl, rfl, rfl, rfl, rfl, rfl, rfl, fun _ h => h, rfl, rfl, rfl, rfl⟩, trivial,
      nofun, fun _ => not_false⟩

/-- **Every other point** of the program. -/
theorem aside_program {p : Pc} (hserving : p.serving = none) (horders : ¬ p.Orders) (x : ℕ)
    (s : Shared) : Aside s (program p x s) := by
  cases p with
  | main routines =>
    cases routines with
    | nil => exact ⟨SameOrders.refl s, trivial, nofun, fun _ => not_false⟩
    | cons routine rest =>
      refine ⟨SameOrders.refl s, ?_, nofun, fun _ => not_false⟩
      cases routine <;> exact ⟨rfl, rfl⟩
  | customer p => exact aside_customer x s horders
  | manager p => exact aside_manager s hserving
  | orderTaker p => exact aside_orderTaker s hserving
  | waiter p => exact aside_waiter s p
  | cook p => exact aside_cook s p

/-! ## Numbers -/

/-- The thread has no number before and after, or the same one. -/
structure SameNumber (s : Shared) (p : Pc) (a : Act Pc) : Prop where
  numbers : SameNumbers s a.shared
  customerID : a.pc.customerID = p.customerID
  orderTakerID : a.pc.orderTakerID = p.orderTakerID
  fork : ∀ q, a.op = .fork q → q.customerID = none ∧ q.orderTakerID = none

theorem SameNumber.of_map {α : Type} {s : Shared} {p : Pc} {a : Act α} {f : α → Pc}
    (hnumbers : SameNumbers s a.shared) (hfork : ∀ r, a.op ≠ .fork r)
    (hf : ∀ q, (f q).customerID = p.customerID ∧ (f q).orderTakerID = p.orderTakerID) :
    SameNumber s p (a.map f) := by
  refine ⟨hnumbers, (hf _).1, (hf _).2, ?_⟩
  intro q hop
  change a.op.map f = .fork q at hop
  cases h : a.op <;> rw [h] at hop <;> first | exact absurd h (hfork _) | cases hop

theorem sameNumber_service {p : Pc} {k : ℕ} {q : ServiceAt} (h : p.serving = some (k, q))
    (s : Shared) {f : Option ServiceAt → Pc} (hf : ServesOn k f) :
    SameNumber s p ((serviceCustomer k s q).map f) := by
  have hp : p.customerID = none ∧ p.orderTakerID = some k := by
    cases p with
    | manager p => cases p <;> cases h; exact ⟨rfl, rfl⟩
    | orderTaker p => cases p <;> cases h; exact ⟨rfl, rfl⟩
    | _ => cases h
  apply SameNumber.of_map
  · cases q
    all_goals
      simp only [serviceCustomer]
      try split_ifs
    all_goals exact ⟨rfl, rfl⟩
  · cases q
    all_goals
      simp only [serviceCustomer]
      try split_ifs
    all_goals exact nofun
  · intro r
    rw [hp.1, hp.2]
    exact ⟨hf.customerID r, hf.orderTakerID r⟩

theorem sameNumber_bag {p : Pc} {isManager : Bool} {s : Shared} {q : BagAt}
    {f : Option BagAt → Pc}
    (hf : ∀ q, (f q).customerID = p.customerID ∧ (f q).orderTakerID = p.orderTakerID) :
    SameNumber s p ((bagOrder isManager s q).map f) := by
  have hwrites := bagOrder_writes isManager s q
  have hcalls := bagOrder_calls isManager s q
  apply SameNumber.of_map _ _ hf
  · rw [hwrites]
    exact ⟨rfl, rfl⟩
  · intro r hr
    rw [hr] at hcalls
    exact hcalls

theorem sameNumber_cookManager {p : Pc} {i : ℕ} {s : Shared} {q : ManageCookAt}
    {go : Option ManageCookAt → Pc}
    (hgo : ∀ q, (go q).customerID = p.customerID ∧ (go q).orderTakerID = p.orderTakerID) :
    SameNumber s p (manageCook go i s q) := by
  cases q
  case hire =>
    refine ⟨⟨rfl, rfl⟩, (hgo _).1, (hgo _).2, ?_⟩
    intro q hq
    cases hq
    exact ⟨rfl, rfl⟩
  all_goals
    simp only [manageCook]
    try split_ifs
  all_goals exact ⟨⟨rfl, rfl⟩, (hgo _).1, (hgo _).2, not_fork rfl⟩

theorem sameNumber_manager (s : Shared) {p : ManagerAt} (h : p ≠ .create) :
    SameNumber s (.manager p) (manager s p) := by
  cases p
  case create => exact absurd rfl h
  case service id rounds q =>
    obtain ⟨f, hprogram, hf⟩ := program_serving (p := .manager (.service id rounds q)) rfl 0 s
    rw [show manager s (.service id rounds q) = _ from hprogram]
    exact sameNumber_service rfl s hf
  case bag id q =>
    apply sameNumber_bag
    rintro (- | q) <;> exact ⟨rfl, rfl⟩
  case inventory id i q =>
    apply SameNumber.of_map
    · cases q
      all_goals
        simp only [orderInventoryFood]
        try split_ifs
      all_goals exact ⟨rfl, rfl⟩
    · cases q
      all_goals
        simp only [orderInventoryFood]
        try split_ifs
      all_goals exact not_fork rfl
    · rintro (- | q)
      · simp only
        split_ifs <;> exact ⟨rfl, rfl⟩
      · exact ⟨rfl, rfl⟩
  case cook id i q =>
    rw [manager]
    apply sameNumber_cookManager
    rintro (- | q)
    · simp only
      split_ifs <;> exact ⟨rfl, rfl⟩
    · exact ⟨rfl, rfl⟩
  case line id q =>
    apply SameNumber.of_map
    · cases q
      all_goals
        simp only [checkLineToEnterRest]
        try split_ifs
      all_goals exact ⟨rfl, rfl⟩
    · cases q
      all_goals
        simp only [checkLineToEnterRest]
        try split_ifs
      all_goals exact not_fork rfl
    · rintro (- | q) <;> exact ⟨rfl, rfl⟩
  case exit id q =>
    apply SameNumber.of_map
    · cases q <;> exact ⟨rfl, rfl⟩
    · cases q <;> exact not_fork rfl
    · rintro (q | b) <;> exact ⟨rfl, rfl⟩
  case exited id b => cases b <;> exact ⟨⟨rfl, rfl⟩, rfl, rfl, not_fork rfl⟩
  all_goals
    simp only [manager]
    try split_ifs
  all_goals exact ⟨⟨rfl, rfl⟩, rfl, rfl, not_fork rfl⟩

theorem sameNumber_orderTaker (s : Shared) {p : OrderTakerAt} (h : p ≠ .create) :
    SameNumber s (.orderTaker p) ((orderTaker s p).map .orderTaker) := by
  cases p
  case create => exact absurd rfl h
  case service id q =>
    obtain ⟨f, hprogram, hf⟩ := program_serving (p := .orderTaker (.service id q)) rfl 0 s
    rw [show (orderTaker s (.service id q)).map Pc.orderTaker = (serviceCustomer id s q).map f from
      hprogram]
    exact sameNumber_service rfl s hf
  case bag id q =>
    rw [orderTaker, Action.map_map]
    apply sameNumber_bag
    rintro (- | q) <;> exact ⟨rfl, rfl⟩
  case exit id q =>
    rw [orderTaker, Action.map_map]
    apply SameNumber.of_map
    · cases q <;> exact ⟨rfl, rfl⟩
    · cases q <;> exact not_fork rfl
    · rintro (q | b) <;> exact ⟨rfl, rfl⟩
  case exited id b => cases b <;> exact ⟨⟨rfl, rfl⟩, rfl, rfl, not_fork rfl⟩
  all_goals exact ⟨⟨rfl, rfl⟩, rfl, rfl, not_fork rfl⟩

theorem sameNumber_cook (s : Shared) (p : CookAt) :
    SameNumber s (.cook p) ((cook s p).map .cook) := by
  cases p
  case exit id q =>
    rw [cook, Action.map_map]
    apply SameNumber.of_map
    · cases q <;> exact ⟨rfl, rfl⟩
    · cases q <;> exact not_fork rfl
    · rintro (q | (- | -)) <;> exact ⟨rfl, rfl⟩
  all_goals
    simp only [cook]
    try split_ifs
  all_goals exact ⟨⟨rfl, rfl⟩, rfl, rfl, not_fork rfl⟩

theorem sameNumber_waiter (s : Shared) (p : WaiterAt) :
    SameNumber s (.waiter p) ((waiter s p).map .waiter) := by
  cases p
  all_goals
    simp only [waiter]
    try split_ifs
  all_goals exact ⟨⟨rfl, rfl⟩, rfl, rfl, not_fork rfl⟩

theorem sameNumber_customer (random : ℕ) (s : Shared) {p : CustomerAt} (h : p ≠ .create) :
    SameNumber s (.customer p) ((customer random s p).map .customer) := by
  cases p
  case create => exact absurd rfl h
  all_goals
    simp only [customer]
    try split_ifs
  all_goals exact ⟨⟨rfl, rfl⟩, rfl, rfl, not_fork rfl⟩

/-- A thread keeps its numbers, but where it takes one. -/
theorem sameNumber_program {p : Pc} (hcustomer : p ≠ .customer .create)
    (hmanager : p ≠ .manager .create) (horderTaker : p ≠ .orderTaker .create) (x : ℕ)
    (s : Shared) : SameNumber s p (program p x s) := by
  cases p with
  | main routines =>
    cases routines with
    | nil => exact ⟨⟨rfl, rfl⟩, rfl, rfl, nofun⟩
    | cons routine rest =>
      refine ⟨⟨rfl, rfl⟩, rfl, rfl, ?_⟩
      intro q hq
      cases hq
      cases routine <;> exact ⟨rfl, rfl⟩
  | customer p => exact sameNumber_customer x s fun h => hcustomer (congrArg _ h)
  | manager p => exact sameNumber_manager s fun h => hmanager (congrArg _ h)
  | orderTaker p => exact sameNumber_orderTaker s fun h => horderTaker (congrArg _ h)
  | waiter p => exact sameNumber_waiter s p
  | cook p => exact sameNumber_cook s p

/-- Only a customer goes on as a customer. -/
theorem customerID_program {p : Pc} (h : ∀ q, p ≠ .customer q) (x : ℕ) (s : Shared) :
    (program p x s).pc.customerID = none := by
  by_cases hmanager : p = .manager .create
  · subst hmanager
    rfl
  by_cases horderTaker : p = .orderTaker .create
  · subst horderTaker
    rfl
  rw [(sameNumber_program (h .create) hmanager horderTaker x s).customerID]
  cases p with
  | customer q => exact absurd rfl (h q)
  | _ => rfl

/-- **A customer** takes a number of its own. -/
theorem takes_customer (p : Pc) (x : ℕ) (s : Shared) :
    Machine.Takes Pc.customerID (·.countNumCustomers) s p (program p x s) := by
  by_cases hcustomer : p = .customer .create
  · subst hcustomer
    exact ⟨Or.inr ⟨rfl, rfl⟩, nofun⟩
  by_cases hmanager : p = .manager .create
  · subst hmanager
    exact ⟨Or.inl ⟨rfl, rfl⟩, nofun⟩
  by_cases horderTaker : p = .orderTaker .create
  · subst horderTaker
    exact ⟨Or.inl ⟨rfl, rfl⟩, nofun⟩
  have h := sameNumber_program hcustomer hmanager horderTaker x s
  exact ⟨Or.inl ⟨h.customerID, h.numbers.1⟩, fun q hq => (h.fork q hq).1⟩

/-- **An order taker**, and the manager, take a number of their own. -/
theorem takes_orderTaker (p : Pc) (x : ℕ) (s : Shared) :
    Machine.Takes Pc.orderTakerID (·.countNumOrderTakers) s p (program p x s) := by
  by_cases hcustomer : p = .customer .create
  · subst hcustomer
    exact ⟨Or.inl ⟨rfl, rfl⟩, nofun⟩
  by_cases hmanager : p = .manager .create
  · subst hmanager
    exact ⟨Or.inr ⟨rfl, rfl⟩, nofun⟩
  by_cases horderTaker : p = .orderTaker .create
  · subst horderTaker
    exact ⟨Or.inr ⟨rfl, rfl⟩, nofun⟩
  have h := sameNumber_program hcustomer hmanager horderTaker x s
  exact ⟨Or.inl ⟨h.orderTakerID, h.numbers.2⟩, fun q hq => (h.fork q hq).2⟩

/-! ## Locks and conditions of the program -/

theorem not_holds {s : Shared} {p : Pc} (hserving : ∀ k q, p.serving = some (k, q) → q = .enter)
    (hcustomer : p.customerID = none) (l : LockName) : ¬ holds s p l := by
  cases p with
  | customer p => cases p <;> first | exact id | cases hcustomer
  | manager p =>
    cases p
    case service k rounds q =>
      rw [hserving k q rfl]
      exact id
    all_goals exact id
  | orderTaker p =>
    cases p
    case service k q =>
      rw [hserving k q rfl]
      exact id
    all_goals exact id
  | _ => exact id

/-- **The locks** that a thread has. -/
theorem keeps_program (p : Pc) (x : ℕ) (s : Shared) :
    Machine.Keeps holds s p (program p x s) := by
  cases hserving : p.serving with
  | some kq =>
    obtain ⟨f, hprogram, hf⟩ := program_serving (k := kq.1) (q := kq.2) hserving x s
    rw [hprogram]
    exact keeps_service hserving s hf
  | none =>
    by_cases hcustomer : ∃ q, p = .customer q
    · obtain ⟨q, rfl⟩ := hcustomer
      exact keeps_customer x s q
    · have horders : ¬ p.Orders := by
        cases p with
        | customer q => exact absurd ⟨q, rfl⟩ hcustomer
        | _ => exact id
      have haside := aside_program hserving horders x s
      have hnumber := customerID_program (fun q h => hcustomer ⟨q, h⟩) x s
      constructor
      · intro l hl
        exact absurd hl (not_holds haside.serving hnumber l)
      · intro q l hq
        have hcall := haside.call
        rw [hq] at hcall
        apply not_holds _ hcall.2
        intro k r hr
        rw [hcall.1] at hr
        cases hr

/-- The condition on which an order taker can wait. -/
def ServiceAt.MayWait (k : ℕ) (c : CVName) (l : LockName) : ServiceAt → Prop
  | .ordered _ | .paid _ => c = .orderTakerBusy k ∧ l = .orderTakerBusy k
  | _ => c.Foreign

/-- The condition on which a thread can wait, if it has to do with orders. -/
def MayWait (s : Shared) (c : CVName) (l : LockName) : Pc → Prop
  | .customer (.called i _) => c = .lineToOrderFood i ∧ l = .lineToOrderFood
  | .customer (.pay i _) | .customer (.getToken i _) =>
    c = .orderTakerBusy (s.getOrderTakerIDFromCustomerID i) ∧
      l = .orderTakerBusy (s.getOrderTakerIDFromCustomerID i)
  | .manager (.service k _ q) | .orderTaker (.service k q) => q.MayWait k c l
  | _ => c.Foreign

theorem mayWait_of_serving {s : Shared} {c : CVName} {l : LockName} {p : Pc} {k : ℕ}
    {q : ServiceAt} (h : p.serving = some (k, q)) : MayWait s c l p ↔ q.MayWait k c l := by
  cases p with
  | manager p => cases p <;> cases h; rfl
  | orderTaker p => cases p <;> cases h; rfl
  | _ => cases h

theorem mayWait_of_aside {s : Shared} {a : Act Pc} (h : Aside s a) {c : CVName} {l : LockName}
    (hop : a.op = .wait c l) : MayWait a.shared c l a.pc := by
  have hcall := h.call
  rw [hop] at hcall
  have hengaged := h.engaged
  have hserving := h.serving
  cases hpc : a.pc <;> rw [hpc] at hengaged hserving
  case customer p =>
    cases p
    case called i eatIn => exact absurd (fun c l => nofun) (hengaged .ready)
    case pay i eatIn => exact absurd trivial (hengaged .ready)
    case getToken i eatIn => exact absurd ⟨c, l, rfl⟩ (hengaged (.waiting c l))
    all_goals exact hcall
  case manager p =>
    cases p
    case service k rounds q =>
      rw [hserving k q rfl]
      exact hcall
    all_goals exact hcall
  case orderTaker p =>
    cases p
    case service k q =>
      rw [hserving k q rfl]
      exact hcall
    all_goals exact hcall
  all_goals exact hcall

/-- **The condition** on which a thread waits. -/
theorem mayWait_program {p : Pc} {x : ℕ} {s : Shared} {c : CVName} {l : LockName}
    (hop : (program p x s).op = .wait c l) :
    MayWait (program p x s).shared c l (program p x s).pc := by
  cases hserving : p.serving with
  | some kq =>
    obtain ⟨k, q⟩ := kq
    obtain ⟨f, hprogram, hf⟩ := program_serving hserving x s
    rw [hprogram] at hop ⊢
    cases q
    case ask i =>
      cases hop
      exact (mayWait_of_serving (hf.goesOn _)).mpr ⟨rfl, rfl⟩
    case respond i =>
      cases hop
      exact (mayWait_of_serving (hf.goesOn _)).mpr ⟨rfl, rfl⟩
    all_goals
      simp only [serviceCustomer] at hop
      try split_ifs at hop
    all_goals cases hop
  | none =>
    by_cases horders : p.Orders
    · cases p with
      | customer p =>
        cases p
        case joinLineToOrder i eatIn => cases hop; exact ⟨rfl, rfl⟩
        case awaitResponse i eatIn => cases hop; exact ⟨rfl, rfl⟩
        case paid i eatIn => cases hop; exact ⟨rfl, rfl⟩
        all_goals first
          | exact horders.elim
          | cases hop
          | skip
        simp only [program, customer] at hop
        split_ifs at hop <;> cases hop
      | _ => exact horders.elim
    · exact mayWait_of_aside (aside_program hserving horders x s) hop

end Nachos.Restaurant
