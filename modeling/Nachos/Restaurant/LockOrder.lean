import Nachos.Restaurant.Tokens
import Nachos.Threads.LockOrder

/-!
# The order of the restaurant's locks

At each point of the program a thread may have a few locks, and it asks for one only if they are
lower.

* `keepsOrder_program`: every call keeps to the order.
* `no_deadlock`: no threads wait for each other in a circle.
-/

namespace Nachos.Restaurant

open Nachos.Lib Nachos.Threads

/-! ## Ranks -/

/-- The rank of a lock. The locks of the last rank are not nested in each other. -/
def LockName.rank : LockName → ℕ
  | .lineToOrderFood => 0
  | .orderTakerBusy _ => 1
  | .ordersNeedingBagging | .inventory _ => 2
  | .lineToEnterRest | .customerSitting _ | .orderReady | .mrWr | .hireCook | .baggedOrders => 3
  | .initialization => 3

/-! ## The locks that a thread may have -/

/-- In `serviceCustomer`. -/
def ServiceAt.MayHold (k : ℕ) : ServiceAt → LockName → Prop
  | .add _ _, l | .added _ _, l => l = .orderTakerBusy k ∨ l = .ordersNeedingBagging
  | q, l => q.Holds k l

/-- In `bagOrder`. -/
def BagAt.MayHold : BagAt → LockName → Prop
  | .enter, _ => False
  | .scan _ _, l => l = .ordersNeedingBagging
  | .eatIn _, l | .callWaiters _, l => l = .ordersNeedingBagging ∨ l = .baggedOrders
  | .eatInReady _, l => l = .ordersNeedingBagging ∨ l = .baggedOrders
  | .togo _, l | .togoReady _, l => l = .ordersNeedingBagging ∨ l = .orderReady

/-- In `shouldExit`. -/
def ExitAt.MayHold : ExitAt → LockName → Prop
  | .enter, _ => False
  | .look, l => l = .initialization

/-- In `orderInventoryFood`. -/
def InventoryAt.MayHold (i : ℕ) : InventoryAt → LockName → Prop
  | .enter, _ => False
  | _, l => l = .inventory i

/-- In `manageCook`. -/
def ManageCookAt.MayHold (i : ℕ) : ManageCookAt → LockName → Prop
  | .enter, _ => False
  | .hire, l | .awaitCook, l | .hired, l => l = .inventory i ∨ l = .hireCook
  | .look, l | .bringBack, l | .sendOnBreak, l | .leave, l => l = .inventory i

/-- In `checkLineToEnterRest`. -/
def CheckLineAt.MayHold : CheckLineAt → LockName → Prop
  | .enter, _ => False
  | _, l => l = .lineToEnterRest

/-- A customer. -/
def CustomerAt.MayHold (orderTaker : ℕ → ℕ) : CustomerAt → LockName → Prop
  | .create, l | .count _, l | .counted _, l => l = .initialization
  | .joinLineToEnter _, l | .leaveLineToEnter _, l | .freeTable _, l => l = .lineToEnterRest
  | .sit i _, l => l = .orderTakerBusy (orderTaker i) ∨ l = .customerSitting i
  | .seated i, l | .awaitFood i, l | .served i, l | .eat i, l => l = .customerSitting i
  | .stand i _, l => l = .orderTakerBusy (orderTaker i) ∨ l = .orderReady
  | .checkOrder _ _, l | .awaitOrder _ _, l | .takeOrder _ _, l => l = .orderReady
  | p, l => p.Holds orderTaker l

/-- The manager. -/
def ManagerAt.MayHold : ManagerAt → LockName → Prop
  | .create, l | .created _, l => l = .initialization
  | .look _, l | .helping _, l => l = .lineToOrderFood
  | .service k _ q, l => q.MayHold k l
  | .bag _ q, l => q.MayHold l
  | .callWaiterLook _, l | .callWaiterLeave _, l => l = .mrWr
  | .inventory _ i q, l => q.MayHold i l
  | .cook _ i q, l => q.MayHold i l
  | .line _ q, l => q.MayHold l
  | .exit _ q, l => q.MayHold l
  | .start, _ | .loop _, _ | .callWaiter _, _ | .exited _ _, _ => False

/-- An order taker. -/
def OrderTakerAt.MayHold : OrderTakerAt → LockName → Prop
  | .create, l | .created _, l => l = .initialization
  | .service k q, l => q.MayHold k l
  | .bag _ q, l => q.MayHold l
  | .exit _ q, l => q.MayHold l
  | .start, _ | .exited _ _, _ => False

/-- A cook. -/
def CookAt.MayHold : CookAt → LockName → Prop
  | .take, l | .informed _, l => l = .hireCook
  | .look i, l | .goOnBreak i, l | .cook i, l | .fetch i, l | .put i, l => l = .inventory i
  | .exit _ q, l => q.MayHold l
  | .start, _ | .loop _, _ | .cooking _, _ | .exited _, _ => False

/-- A waiter, if the token `n` is that of the customer `customer n`. -/
def WaiterAt.MayHold (customer : ℕ → ℕ) : WaiterAt → LockName → Prop
  | .create, l => l = .initialization
  | .look _, l | .goOnBreak _, l => l = .baggedOrders
  | .signal _ n, l | .awaitCustomer _ n, l => l = .customerSitting (customer n)
  | .signalAgain _ n, l | .leave _ n, l => l = .customerSitting (customer n)
  | .start, _ | .loop _, _ | .serve _ _, _ => False

/-- **The locks** that a thread may have. -/
def mayHold (s : Shared) : Pc → LockName → Prop
  | .main _, _ => False
  | .customer p, l => p.MayHold s.getOrderTakerIDFromCustomerID l
  | .manager p, l => p.MayHold l
  | .orderTaker p, l => p.MayHold l
  | .waiter p, l => p.MayHold s.getCustomerIDFromToken l
  | .cook p, l => p.MayHold l

/-! ## The order -/

/-- A call keeps to the order of the locks. -/
abbrev KeepsOrder {α : Type} (may : Shared → α → LockName → Prop) : Shared → α → Act α → Prop :=
  Machine.Climbs LockName.rank may

/-- The locks of a routine that has not returned. -/
def unlessDone {α : Type} (may : α → LockName → Prop) (_ : Shared) : Option α → LockName → Prop
  | none, _ => False
  | some q, l => may q l

/-- Where a routine is in another one. -/
theorem KeepsOrder.of_map {β : Type} {may : β → LockName → Prop} {s : Shared} {q : β}
    {a : Act (Option β)} (h : KeepsOrder (unlessDone may) s (some q) a) {f : Option β → Pc} {p : Pc}
    (hp : ∀ k, mayHold s p k ↔ may q k)
    (hf : ∀ s r k, mayHold s (f r) k ↔ unlessDone may s r k) :
    KeepsOrder mayHold s p (a.map f) :=
  Machine.Climbs.map h hp (hf _)

theorem keepsOrder_service (k : ℕ) (s : Shared) (q : ServiceAt) :
    KeepsOrder (unlessDone (ServiceAt.MayHold k)) s (some q) (serviceCustomer k s q) := by
  cases q
  all_goals
    simp only [serviceCustomer]
    try split_ifs
  all_goals
    simp only [KeepsOrder, Machine.Climbs, unlessDone, ServiceAt.MayHold, ServiceAt.Holds]
  all_goals try (constructor; · intro k; simp +contextual [LockName.rank])
  all_goals grind

theorem keepsOrder_bag (isManager : Bool) (s : Shared) (q : BagAt) :
    KeepsOrder (unlessDone BagAt.MayHold) s (some q) (bagOrder isManager s q) := by
  cases q
  case scan i j =>
    have hscan := bagOrder_scan isManager s i j
    generalize bagOrder isManager s (.scan i j) = a at hscan
    cases hscan with
    | done =>
      intro k
      exact ⟨False.elim, fun hk => absurd hk.2 hk.1⟩
    | item => exact fun k => Iff.rfl
    | eatIn i => exact ⟨by rintro k rfl; decide, fun k => or_comm⟩
    | togo i => exact ⟨by rintro k rfl; decide, fun k => or_comm⟩
  all_goals
    simp only [bagOrder]
    try split_ifs
  all_goals
    simp only [KeepsOrder, Machine.Climbs, unlessDone, BagAt.MayHold]
  all_goals grind

theorem keepsOrder_of_exit {s : Shared} {q : ExitAt} {f : ExitAt ⊕ Bool → Pc} {p : Pc}
    (hp : ∀ k, mayHold s p k ↔ q.MayHold k)
    (hf : ∀ s q k, mayHold s (f (.inl q)) k ↔ q.MayHold k)
    (hdone : ∀ s exit k, ¬ mayHold s (f (.inr exit)) k) :
    KeepsOrder mayHold s p ((shouldExit s q).map f) := by
  cases q
  · refine ⟨fun k hk => ((hp k).mp hk).elim, ?_⟩
    intro k
    exact (hf s .look k).trans (or_iff_left (hp k).mp).symm
  · intro k
    exact iff_of_false (hdone s _ k) fun hk => hk.1 ((hp k).mp hk.2)

theorem keepsOrder_inventory (i : ℕ) (s : Shared) (q : InventoryAt) :
    KeepsOrder (unlessDone (InventoryAt.MayHold i)) s (some q) (orderInventoryFood i s q) := by
  cases q
  all_goals
    simp only [orderInventoryFood]
    try split_ifs
  all_goals
    simp only [KeepsOrder, Machine.Climbs, unlessDone, InventoryAt.MayHold]
  all_goals grind

theorem keepsOrder_line (s : Shared) (q : CheckLineAt) :
    KeepsOrder (unlessDone CheckLineAt.MayHold) s (some q) (checkLineToEnterRest s q) := by
  cases q
  all_goals
    simp only [checkLineToEnterRest]
    try split_ifs
  all_goals
    simp only [KeepsOrder, Machine.Climbs, unlessDone, CheckLineAt.MayHold]
  all_goals grind

theorem keepsOrder_cookManager {go : Option ManageCookAt → Pc} {i : ℕ}
    (hgo : ∀ s q k, mayHold s (go q) k ↔ unlessDone (ManageCookAt.MayHold i) s q k) (s : Shared)
    (q : ManageCookAt) : KeepsOrder mayHold s (go (some q)) (manageCook go i s q) := by
  cases q
  case hire =>
    refine ⟨fun k hk => hk, ?_⟩
    intro k
    exact (hgo _ (some .awaitCook) k).trans (hgo s (some .hire) k).symm
  all_goals
    simp only [manageCook]
    try split_ifs
  all_goals
    simp only [KeepsOrder, Machine.Climbs, hgo, unlessDone, ManageCookAt.MayHold]
  all_goals try (constructor; · intro k; simp +contextual [LockName.rank])
  all_goals grind

theorem keepsOrder_manager (s : Shared) (p : ManagerAt) :
    KeepsOrder mayHold s (.manager p) (manager s p) := by
  cases p
  case service id rounds q =>
    apply KeepsOrder.of_map (keepsOrder_service id s q) fun _ => Iff.rfl
    intro s r k
    cases r with
    | none => cases rounds <;> exact Iff.rfl
    | some r => exact Iff.rfl
  case bag id q =>
    apply KeepsOrder.of_map (keepsOrder_bag true s q) fun _ => Iff.rfl
    intro s r k
    cases r with
    | none => exact Iff.rfl
    | some r => exact Iff.rfl
  case inventory id i q =>
    apply KeepsOrder.of_map (keepsOrder_inventory i s q) fun _ => Iff.rfl
    intro s r k
    cases r with
    | none =>
      simp only
      split_ifs <;> exact Iff.rfl
    | some r => exact Iff.rfl
  case cook id i q =>
    apply keepsOrder_cookManager
    intro s q k
    cases q with
    | none =>
      simp only
      split_ifs <;> exact Iff.rfl
    | some q => exact Iff.rfl
  case line id q =>
    apply KeepsOrder.of_map (keepsOrder_line s q) fun _ => Iff.rfl
    intro s r k
    cases r with
    | none => exact Iff.rfl
    | some r => exact Iff.rfl
  case exit id q =>
    exact keepsOrder_of_exit (q := q) (fun _ => Iff.rfl) (fun _ _ _ => Iff.rfl) fun _ _ _ h => h
  case exited id exit => cases exit <;> exact fun k => Iff.rfl
  all_goals
    simp only [manager]
    try split_ifs
  all_goals
    simp only [KeepsOrder, Machine.Climbs, mayHold, ManagerAt.MayHold, ServiceAt.MayHold,
      ServiceAt.Holds, BagAt.MayHold, InventoryAt.MayHold]
  all_goals grind

theorem keepsOrder_orderTaker (s : Shared) (p : OrderTakerAt) :
    KeepsOrder mayHold s (.orderTaker p) ((orderTaker s p).map .orderTaker) := by
  cases p
  case service id q =>
    rw [orderTaker, Action.map_map]
    apply KeepsOrder.of_map (keepsOrder_service id s q) fun _ => Iff.rfl
    intro s r k
    cases r with
    | none => exact Iff.rfl
    | some r => exact Iff.rfl
  case bag id q =>
    rw [orderTaker, Action.map_map]
    apply KeepsOrder.of_map (keepsOrder_bag false s q) fun _ => Iff.rfl
    intro s r k
    cases r with
    | none => exact Iff.rfl
    | some r => exact Iff.rfl
  case exit id q =>
    rw [orderTaker, Action.map_map]
    exact keepsOrder_of_exit (q := q) (fun _ => Iff.rfl) (fun _ _ _ => Iff.rfl) fun _ _ _ h => h
  case exited id exit => cases exit <;> exact fun k => Iff.rfl
  all_goals
    simp only [orderTaker, KeepsOrder, Machine.Climbs, Action.map, Op.map, mayHold,
      OrderTakerAt.MayHold, ServiceAt.MayHold, ServiceAt.Holds]
  all_goals grind

theorem keepsOrder_cook (s : Shared) (p : CookAt) :
    KeepsOrder mayHold s (.cook p) ((cook s p).map .cook) := by
  cases p
  case exit id q =>
    rw [cook, Action.map_map]
    apply keepsOrder_of_exit (q := q) (fun _ => Iff.rfl) fun _ _ _ => Iff.rfl
    rintro s (- | -) k <;> exact not_false
  all_goals
    simp only [cook]
    try split_ifs
  all_goals
    simp only [KeepsOrder, Machine.Climbs, Action.map, Op.map, mayHold, CookAt.MayHold,
      ExitAt.MayHold]
  all_goals grind

theorem keepsOrder_waiter (s : Shared) (p : WaiterAt) :
    KeepsOrder mayHold s (.waiter p) ((waiter s p).map .waiter) := by
  cases p
  all_goals
    simp only [waiter]
    try split_ifs
  all_goals
    simp only [KeepsOrder, Machine.Climbs, Action.map, Op.map, mayHold, WaiterAt.MayHold]
  all_goals grind

theorem keepsOrder_customer (random : ℕ) (s : Shared) (p : CustomerAt) :
    KeepsOrder mayHold s (.customer p) ((customer random s p).map .customer) := by
  cases p
  all_goals
    simp only [customer]
    try split_ifs
  all_goals
    simp only [KeepsOrder, Machine.Climbs, Action.map, Op.map, mayHold, CustomerAt.MayHold,
      CustomerAt.Holds]
  all_goals try (constructor; · intro k; simp +contextual [LockName.rank])
  all_goals grind

/-- **Every call** keeps to the order of the locks. -/
theorem keepsOrder_program (p : Pc) (x : ℕ) (s : Shared) :
    KeepsOrder mayHold s p (program p x s) := by
  cases p with
  | main routines =>
    cases routines with
    | nil => exact fun k => Iff.rfl
    | cons routine rest => exact ⟨fun k => by cases routine <;> exact id, fun k => Iff.rfl⟩
  | customer p => exact keepsOrder_customer x s p
  | manager p => exact keepsOrder_manager s p
  | orderTaker p => exact keepsOrder_orderTaker s p
  | waiter p => exact keepsOrder_waiter s p
  | cook p => exact keepsOrder_cook s p

/-! ## Runs -/

section

variable {m m' : Simulation} {t x : ℕ} {r : Pc}

/-- The locks of a customer depend on its own order taker. -/
theorem CustomerAt.mayHold_congr {p : CustomerAt} {f g : ℕ → ℕ} {l : LockName}
    (hfg : ∀ i, p.id = some i → (∀ eatIn, p ≠ .called i eatIn) → f i = g i)
    (h : p.MayHold f l) : p.MayHold g l := by
  cases p
  case sit i n => exact h.imp_left fun hl => hl.trans (congrArg _ (hfg i rfl nofun))
  case stand i n => exact h.imp_left fun hl => hl.trans (congrArg _ (hfg i rfl nofun))
  all_goals first
    | exact h
    | exact CustomerAt.holds_congr hfg h

/-- The locks of a waiter depend on the customer of its token. -/
theorem WaiterAt.mayHold_congr {p : WaiterAt} {f g : ℕ → ℕ} {l : LockName}
    (hfg : ∀ n, p.token = some n → f n = g n) (h : p.MayHold f l) : p.MayHold g l := by
  cases p
  case signal i n => exact h.trans (congrArg _ (hfg n rfl))
  case awaitCustomer i n => exact h.trans (congrArg _ (hfg n rfl))
  case signalAgain i n => exact h.trans (congrArg _ (hfg n rfl))
  case leave i n => exact h.trans (congrArg _ (hfg n rfl))
  all_goals exact h

/-- **What the others do** changes no lock that a thread may have. -/
theorem mayHold_stays (hm : Sessions m) (horders : Orders m) (htokens : Tokens m)
    (hr : m.pc t = some r) (ht : m.status t = .ready) {u : ℕ} {q : Pc} (hq : m.pc u = some q)
    (l : LockName) : mayHold (program r x m.shared).shared q l ↔ mayHold m.shared q l := by
  cases q with
  | customer p =>
    have hsame (i : ℕ) (hi : p.id = some i) (hcalled : ∀ eatIn, p ≠ .called i eatIn) :=
      hm.orderTakerID_stays hq hi hcalled r x
    constructor
    · exact CustomerAt.mayHold_congr hsame
    · exact CustomerAt.mayHold_congr fun i hi hcalled => (hsame i hi hcalled).symm
  | waiter p =>
    have hsame (n : ℕ) (hn : p.token = some n) :=
      horders.customerID_after (x := x) hm hr ht (htokens.inHand u _ n hq hn)
    constructor
    · exact WaiterAt.mayHold_congr hsame
    · exact WaiterAt.mayHold_congr fun n hn => (hsame n hn).symm
  | _ => exact Iff.rfl

/-- **The locks in order**, and what the locks of customers and waiters depend on. -/
structure OrderedInv (m : Simulation) : Prop where
  sessions : Sessions m
  orders : Orders m
  tokens : Tokens m
  ordered : m.Ordered LockName.rank (m.Has mayHold)
  owns : m.Owns (m.Has mayHold)

/-- **One step.** -/
theorem OrderedInv.step (h : OrderedInv m) (hs : simulationStep m (t, x) = .ok m') :
    OrderedInv m' := by
  have hok := h.sessions.ok
  refine ⟨h.sessions.step hs, h.orders.step h.sessions hs, h.tokens.step h.orders.books hok hs, ?_,
    ?_⟩
  · apply h.ordered.step hok hs
    · intro p _ _
      exact keepsOrder_program p x m.shared
    · intro p u q l hp ht _ hq
      exact (mayHold_stays h.sessions h.orders h.tokens hp ht hq l).mpr
  · apply h.owns.step hok hs
    · intro p _ _
      exact (keepsOrder_program p x m.shared).keeps
    · intro p u q l hp ht _ hq
      exact (mayHold_stays h.sessions h.orders h.tokens hp ht hq l).mp

end

theorem OrderedInv.init (routines : List Routine) (target : ℕ) (v : TestVariables) :
    OrderedInv (.init (.main routines) (initializeTest target v)) :=
  ⟨Sessions.init routines target v, Orders.init routines target v, Tokens.init routines target v,
    Machine.Ordered.init _ _ _ _, by
      rintro u l ⟨p, hp, hl⟩
      cases Machine.pc_init hp
      exact hl.elim⟩

/-- **No deadlock**: in every run, with any number of threads of each kind, no threads wait in
    `Acquire` for each other's locks in a circle. -/
theorem no_deadlock (routines : List Routine) (target : ℕ) (v : TestVariables)
    (events : List (ℕ × ℕ)) (m : Simulation)
    (h : exec simulationStep (.init (.main routines) (initializeTest target v)) events = .ok m)
    (t : ℕ) : ¬ Relation.TransGen m.WaitsFor t t :=
  (exec_preserves (fun _ _ _ hm hs => OrderedInv.step hm hs) (OrderedInv.init routines target v)
    h).ordered.acyclic t

/-- A customer waits for the manager. -/
theorem no_deadlock_two : ∃ m : Simulation,
    exec simulationStep (.init (.main [.manager, .customer])
      (initializeTest 1 ⟨10, false, true, false, none⟩)) [(0, 0), (0, 0), (1, 0), (2, 0)] = .ok m ∧
      m.WaitsFor 2 1 ∧ ¬ Relation.TransGen m.WaitsFor 1 1 := by
  have hrun : Ends simulationStep (.init (.main [.manager, .customer])
      (initializeTest 1 ⟨10, false, true, false, none⟩)) [(0, 0), (0, 0), (1, 0), (2, 0)]
      fun m => m.status 2 = .acquiring .initialization ∧ (m.locks .initialization).HeldBy 1 := by
    decide +kernel
  obtain ⟨m, h, hstatus, hheld⟩ := hrun
  exact ⟨m, h, ⟨.initialization, Or.inl hstatus, hheld⟩, no_deadlock _ _ _ _ m h 1⟩

end Nachos.Restaurant
