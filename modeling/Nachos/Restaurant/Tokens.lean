import Nachos.Restaurant.Bagging

/-!
# Tokens on their way

From the order taker who enters an order its token goes to the one who bags it, to the list of
bagged orders and to a waiter.

* `Tokens.step`: all tokens on the way have been entered.
* `Orders.customerID_after`: the customer of a token that has been entered stays the same.
-/

namespace Nachos.Restaurant

open Nachos.Lib Nachos.Threads

/-! ## Points with a token -/

/-- The order that `bagOrder` has in hand. -/
def BagAt.token : BagAt → Option ℕ
  | .scan i (_ + 1) | .eatIn i | .callWaiters i | .eatInReady i | .togo i | .togoReady i => some i
  | .enter | .scan _ 0 => none

/-- The token that a waiter has. -/
def WaiterAt.token : WaiterAt → Option ℕ
  | .serve _ n | .signal _ n | .awaitCustomer _ n | .signalAgain _ n | .leave _ n => some n
  | .start | .create | .loop _ | .look _ | .goOnBreak _ => none

/-- The routine `bagOrder` of an order taker, or of the manager. -/
def Pc.bagging : Pc → Option BagAt
  | .manager (.bag _ q) | .orderTaker (.bag _ q) => some q
  | _ => none

/-- The token that a thread has in hand to bag or to deliver the order. -/
def Pc.token : Pc → Option ℕ
  | .manager (.bag _ q) | .orderTaker (.bag _ q) => q.token
  | .waiter q => q.token
  | _ => none

/-- The order has been entered. -/
def Entered (s : Shared) (n : ℕ) : Prop := ∃ c, (n, c) ∈ s.history.entered

/-- **Every token** on its way has been entered. -/
structure Tokens (m : Simulation) : Prop where
  bagged : ∀ j < m.shared.countNumOrdersBaggedAndReady, Entered m.shared (m.shared.baggedOrders j)
  inHand : ∀ u r n, m.pc u = some r → r.token = some n → Entered m.shared n

/-! ## What a call does -/

/-- The bagged orders stay as they are. -/
def SameBagged (s s' : Shared) : Prop :=
  s'.countNumOrdersBaggedAndReady = s.countNumOrdersBaggedAndReady ∧
    s'.baggedOrders = s.baggedOrders

/-- Who is forked has no token. -/
def ForksNone : Op LockName CVName Pc → Prop
  | .fork q => q.token = none
  | _ => True

/-- **Where tokens come from** and go to in a call. -/
structure Carries (s : Shared) (p : Pc) (a : Act Pc) : Prop where
  bagged : ∀ j < a.shared.countNumOrdersBaggedAndReady,
    j < s.countNumOrdersBaggedAndReady ∧ a.shared.baggedOrders j = s.baggedOrders j ∨
      p.token = some (a.shared.baggedOrders j)
  inHand : ∀ n, a.pc.token = some n → p.token = some n ∨ s.ordersNeedingBagging n ≠ 0 ∨
    ∃ j < s.countNumOrdersBaggedAndReady, n = s.baggedOrders j
  fork : ForksNone a.op

theorem SameBagged.bagged {s s' : Shared} (h : SameBagged s s') {p : Pc} {j : ℕ}
    (hj : j < s'.countNumOrdersBaggedAndReady) :
    j < s.countNumOrdersBaggedAndReady ∧ s'.baggedOrders j = s.baggedOrders j ∨
      p.token = some (s'.baggedOrders j) := by
  obtain ⟨hcount, hbagged⟩ := h
  exact Or.inl ⟨by omega, congrFun hbagged j⟩

/-- A call without a token. -/
theorem Carries.of_none {s : Shared} {p : Pc} {a : Act Pc} (hsame : SameBagged s a.shared)
    (hpc : a.pc.token = none) (hfork : ForksNone a.op) : Carries s p a := by
  refine ⟨fun j hj => hsame.bagged hj, ?_, hfork⟩
  intro n hn
  rw [hpc] at hn
  cases hn

/-- Where a routine without a token is in another one. -/
theorem Carries.of_map {β : Type} {s : Shared} {p : Pc} {a : Act β} {f : β → Pc}
    (hsame : SameBagged s a.shared) (hf : ∀ q, (f q).token = none)
    (hfork : ForksNone (a.op.map f)) :
    Carries s p (a.map f) :=
  .of_none hsame (hf _) hfork

theorem carries_service {s : Shared} {p : Pc} {k : ℕ} {q : ServiceAt} {f : Option ServiceAt → Pc}
    (hf : ∀ q, (f q).token = none) : Carries s p ((serviceCustomer k s q).map f) := by
  cases q
  all_goals
    simp only [serviceCustomer]
    try split_ifs
  all_goals exact .of_map ⟨rfl, rfl⟩ hf trivial

theorem carries_bag {s : Shared} {p : Pc} {isManager : Bool} {q : BagAt} {f : Option BagAt → Pc}
    (hp : p.token = q.token) (hf : ∀ q, (f (some q)).token = q.token)
    (hnone : (f none).token = none) : Carries s p ((bagOrder isManager s q).map f) := by
  -- the order stays in hand
  have hkeep (q' : BagAt) (heq : q'.token = q.token) (n : ℕ) (hn : (f (some q')).token = some n) :
      p.token = some n := by
    rw [hp, ← heq, ← hf q', hn]
  cases q
  case scan i j =>
    have hscan := bagOrder_scan isManager s i j
    generalize bagOrder isManager s (.scan i j) = a at hscan
    have hcurrent {n : ℕ}
        (hopen : 0 < s.ordersNeedingBagging n ∨ (BagAt.scan i j).current = some n) :
        p.token = some n ∨ s.ordersNeedingBagging n ≠ 0 := by
      rw [hp]
      rcases hopen with hopen | hcurrent
      · exact Or.inr hopen.ne'
      · left
        cases j <;> exact hcurrent
    cases hscan with
    | done => exact .of_none ⟨rfl, rfl⟩ hnone trivial
    | item i' j' _ hneeded =>
      refine ⟨fun k hk => Or.inl ⟨hk, rfl⟩, ?_, trivial⟩
      intro n hn
      cases (hf _).symm.trans hn
      right; left
      intro hzero
      rw [hzero, Nat.zero_testBit] at hneeded
      cases hneeded
    | eatIn i' hopen =>
      refine ⟨fun k hk => Or.inl ⟨hk, rfl⟩, ?_, trivial⟩
      intro n hn
      cases (hf _).symm.trans hn
      exact (hcurrent hopen).imp_right Or.inl
    | togo i' hopen =>
      refine ⟨fun k hk => Or.inl ⟨hk, rfl⟩, ?_, trivial⟩
      intro n hn
      cases (hf _).symm.trans hn
      exact (hcurrent hopen).imp_right Or.inl
  case eatIn i =>
    have hbagged (k : ℕ) (hk : k < s.countNumOrdersBaggedAndReady + 1) :
        k < s.countNumOrdersBaggedAndReady ∧
            Function.update s.baggedOrders s.countNumOrdersBaggedAndReady i k = s.baggedOrders k ∨
          p.token = some (Function.update s.baggedOrders s.countNumOrdersBaggedAndReady i k) := by
      by_cases hlast : k = s.countNumOrdersBaggedAndReady
      · right
        rw [hlast, Function.update_self, hp]
        rfl
      · exact Or.inl ⟨by omega, Function.update_of_ne hlast _ _⟩
    simp only [bagOrder]
    split_ifs
    · exact ⟨hbagged, fun n hn => Or.inl (hkeep (.callWaiters i) rfl n hn), trivial⟩
    · exact ⟨hbagged, fun n hn => Or.inl (hkeep (.eatInReady i) rfl n hn), trivial⟩
  case enter => exact .of_none ⟨rfl, rfl⟩ (hf (.scan 0 0)) trivial
  case eatInReady i => exact .of_none ⟨rfl, rfl⟩ (hf (.scan (i + 1) 0)) trivial
  case togoReady i => exact .of_none ⟨rfl, rfl⟩ (hf (.scan (i + 1) 0)) trivial
  case callWaiters i =>
    refine ⟨fun k hk => Or.inl ⟨hk, rfl⟩, fun n hn => Or.inl ?_, trivial⟩
    exact hkeep (.eatInReady i) rfl n hn
  case togo i =>
    refine ⟨fun k hk => Or.inl ⟨hk, rfl⟩, fun n hn => Or.inl ?_, trivial⟩
    exact hkeep (.togoReady i) rfl n hn

theorem carries_cookManager {s : Shared} {p : Pc} {i : ℕ} {q : ManageCookAt}
    {go : Option ManageCookAt → Pc} (hgo : ∀ q, (go q).token = none) :
    Carries s p (manageCook go i s q) := by
  cases q
  all_goals
    simp only [manageCook]
    try split_ifs
  all_goals
    refine .of_none ⟨rfl, rfl⟩ (hgo _) ?_
    first
      | exact trivial
      | exact rfl

theorem carries_manager (s : Shared) (p : ManagerAt) : Carries s (.manager p) (manager s p) := by
  cases p
  case service id rounds q =>
    apply carries_service
    rintro (- | q)
    · cases rounds <;> rfl
    · rfl
  case bag id q => exact carries_bag rfl (fun _ => rfl) rfl
  case inventory id i q =>
    apply Carries.of_map
    · cases q
      all_goals
        simp only [orderInventoryFood]
        try split_ifs
      all_goals exact ⟨rfl, rfl⟩
    · rintro (- | q)
      · simp only
        split_ifs <;> rfl
      · rfl
    · cases q
      all_goals
        simp only [orderInventoryFood]
        try split_ifs
      all_goals exact trivial
  case cook id i q =>
    rw [manager]
    apply carries_cookManager
    rintro (- | q)
    · simp only
      split_ifs <;> rfl
    · rfl
  case line id q =>
    apply Carries.of_map
    · cases q
      all_goals
        simp only [checkLineToEnterRest]
        try split_ifs
      all_goals exact ⟨rfl, rfl⟩
    · rintro (- | q) <;> rfl
    · cases q
      all_goals
        simp only [checkLineToEnterRest]
        try split_ifs
      all_goals exact trivial
  case exit id q =>
    apply Carries.of_map
    · cases q <;> exact ⟨rfl, rfl⟩
    · rintro (q | b) <;> rfl
    · cases q <;> exact trivial
  case exited id b => cases b <;> exact .of_none ⟨rfl, rfl⟩ rfl trivial
  all_goals
    simp only [manager]
    try split_ifs
  all_goals exact .of_none ⟨rfl, rfl⟩ rfl trivial

theorem carries_orderTaker (s : Shared) (p : OrderTakerAt) :
    Carries s (.orderTaker p) ((orderTaker s p).map .orderTaker) := by
  cases p
  case service id q =>
    rw [orderTaker, Action.map_map]
    apply carries_service
    rintro (- | q) <;> rfl
  case bag id q =>
    rw [orderTaker, Action.map_map]
    exact carries_bag rfl (fun _ => rfl) rfl
  case exit id q =>
    rw [orderTaker, Action.map_map]
    apply Carries.of_map
    · cases q <;> exact ⟨rfl, rfl⟩
    · rintro (q | b) <;> rfl
    · cases q <;> exact trivial
  case exited id b => cases b <;> exact .of_none ⟨rfl, rfl⟩ rfl trivial
  all_goals exact .of_none ⟨rfl, rfl⟩ rfl trivial

theorem carries_cook (s : Shared) (p : CookAt) : Carries s (.cook p) ((cook s p).map .cook) := by
  cases p
  case exit id q =>
    rw [cook, Action.map_map]
    apply Carries.of_map
    · cases q <;> exact ⟨rfl, rfl⟩
    · rintro (q | (- | -)) <;> rfl
    · cases q <;> exact trivial
  all_goals
    simp only [cook]
    try split_ifs
  all_goals exact .of_none ⟨rfl, rfl⟩ rfl trivial

theorem carries_waiter (s : Shared) (p : WaiterAt) :
    Carries s (.waiter p) ((waiter s p).map .waiter) := by
  cases p
  case look id =>
    simp only [waiter]
    split_ifs with hcount
    · exact .of_none ⟨rfl, rfl⟩ rfl trivial
    · refine ⟨fun j hj => Or.inl ⟨?_, rfl⟩, ?_, trivial⟩
      · change j < s.countNumOrdersBaggedAndReady - 1 at hj
        omega
      · intro n hn
        cases hn
        exact Or.inr (Or.inr ⟨_, by omega, rfl⟩)
  case start => exact .of_none ⟨rfl, rfl⟩ rfl trivial
  case create => exact .of_none ⟨rfl, rfl⟩ rfl trivial
  case loop id => exact .of_none ⟨rfl, rfl⟩ rfl trivial
  case goOnBreak id => exact .of_none ⟨rfl, rfl⟩ rfl trivial
  case leave id n => exact .of_none ⟨rfl, rfl⟩ rfl trivial
  all_goals exact ⟨fun k hk => Or.inl ⟨hk, rfl⟩, fun n hn => Or.inl hn, trivial⟩

theorem carries_customer (random : ℕ) (s : Shared) (p : CustomerAt) :
    Carries s (.customer p) ((customer random s p).map .customer) := by
  cases p
  all_goals
    simp only [customer]
    try split_ifs
  all_goals exact .of_none ⟨rfl, rfl⟩ rfl trivial

/-- **Every call.** -/
theorem carries_program (p : Pc) (x : ℕ) (s : Shared) : Carries s p (program p x s) := by
  cases p with
  | main routines =>
    cases routines with
    | nil => exact .of_none ⟨rfl, rfl⟩ rfl trivial
    | cons routine rest =>
      refine .of_none ⟨rfl, rfl⟩ rfl ?_
      cases routine <;> rfl
  | customer p => exact carries_customer x s p
  | manager p => exact carries_manager s p
  | orderTaker p => exact carries_orderTaker s p
  | waiter p => exact carries_waiter s p
  | cook p => exact carries_cook s p

/-! ## Runs -/

/-- What has happened stays in the history. -/
theorem history_program (r : Pc) (x : ℕ) (s : Shared) :
    s.history.numbered ⊆ (program r x s).shared.history.numbered ∧
      s.history.entered ⊆ (program r x s).shared.history.entered := by
  have hrefl {α : Type} (l : List α) : l ⊆ l := fun _ h => h
  rcases point_cases r x s with ⟨k, q, f, -, hprogram, -⟩ | ⟨p, rfl, horders⟩ | ⟨-, -, haside⟩
  · rw [hprogram]
    cases q
    case look =>
      simp only [serviceCustomer]
      split_ifs <;> exact ⟨hrefl _, hrefl _⟩
    case paid i =>
      simp only [serviceCustomer]
      split_ifs <;> exact ⟨List.subset_append_left _ _, hrefl _⟩
    case add i n => exact ⟨hrefl _, List.subset_append_left _ _⟩
    all_goals exact ⟨hrefl _, hrefl _⟩
  · cases p
    case getToken i eatIn =>
      simp only [program, customer]
      split_ifs <;> exact ⟨hrefl _, hrefl _⟩
    all_goals first
      | exact horders.elim
      | exact ⟨hrefl _, hrefl _⟩
  · rw [haside.same.numbered, haside.same.entered]
    exact ⟨hrefl _, hrefl _⟩

theorem entered_program {s : Shared} {n : ℕ} (h : Entered s n) (r : Pc) (x : ℕ) :
    Entered (program r x s).shared n := by
  obtain ⟨c, hc⟩ := h
  exact ⟨c, (history_program r x s).2 hc⟩

section

variable {m m' : Simulation} {t x : ℕ} {r : Pc}

/-- **The customer** of a token that has been entered stays the same. -/
theorem Orders.customerID_after (h : Orders m) (hm : Sessions m) (hr : m.pc t = some r)
    (ht : m.status t = .ready) {n : ℕ} (hn : Entered m.shared n) :
    (program r x m.shared).shared.getCustomerIDFromToken n = m.shared.getCustomerIDFromToken n := by
  have hbooks : Books (program r x m.shared).shared := h.books.program (h.knows hm hr ht) x
  obtain ⟨hnumbered, hentered⟩ := history_program r x m.shared
  obtain ⟨c, hc⟩ := hn
  obtain ⟨i, -, hi, -, hcustomer⟩ := h.books.entered_order n c hc
  obtain ⟨j, -, hj, -, hcustomer'⟩ := hbooks.entered_order n c (hentered hc)
  rw [hcustomer, hcustomer']
  exact hbooks.token_unique hj (hnumbered hi)

namespace Tokens

/-- A call. -/
theorem after_call (h : Tokens m) (hbooks : Books m.shared) (hok : m.Ok) (hr : m.pc t = some r)
    (x : ℕ) : Tokens (after m t (program r x m.shared)) := by
  have hcarries := carries_program r x m.shared
  have hkeep {n : ℕ} (hn : Entered m.shared n) : Entered (program r x m.shared).shared n :=
    entered_program hn r x
  have hshared : (after m t (program r x m.shared)).shared = (program r x m.shared).shared :=
    Machine.shared_perform _ t _
  constructor
  · rw [hshared]
    intro j hj
    rcases hcarries.bagged j hj with ⟨hold, hsame⟩ | htoken
    · rw [hsame]
      exact hkeep (h.bagged j hold)
    · exact hkeep (h.inHand t r _ hr htoken)
  · rw [hshared]
    intro u q n hq hn
    rcases Machine.pc_computed hok hq with ⟨rfl, rfl⟩ | ⟨-, hold⟩ | ⟨-, hfork⟩
    · apply hkeep
      rcases hcarries.inHand n hn with htoken | hopen | ⟨j, hj, rfl⟩
      · exact h.inHand u r n hr htoken
      · exact hbooks.bagging n hopen
      · exact h.bagged j hj
    · exact hkeep (h.inHand u q n hold hn)
    · have hnone := hcarries.fork
      rw [hfork] at hnone
      cases hnone.symm.trans hn

/-- A step in which no thread goes on. -/
theorem of_same (h : Tokens m) (hpc : m'.pc = m.pc) (hshared : m'.shared = m.shared) :
    Tokens m' := by
  constructor
  · rw [hshared]
    exact h.bagged
  · rw [hpc, hshared]
    exact h.inHand

/-- **One step.** -/
theorem step (h : Tokens m) (hbooks : Books m.shared) (hok : m.Ok)
    (hs : simulationStep m (t, x) = .ok m') : Tokens m' := by
  rcases Machine.step_cases hs with ⟨r, hr, ht, rfl⟩ | ⟨r, l, hr, ht, rfl⟩ | ⟨r, c, l, hr, ht, rfl⟩
  · exact h.after_call hbooks hok hr x
  · exact h.of_same rfl rfl
  · exact h.of_same (Machine.pc_broadcast m t c l) (Machine.shared_broadcast m t c l)

end Tokens

end

/-- **At the start** there are no tokens. -/
theorem Tokens.init (routines : List Routine) (target : ℕ) (v : TestVariables) :
    Tokens (.init (.main routines) (initializeTest target v)) := by
  constructor
  · intro j hj
    exact absurd hj (Nat.not_lt_zero j)
  · intro u r n hr hn
    cases Machine.pc_init hr
    cases hn

end Nachos.Restaurant
