import Nachos.Restaurant.Sessions

/-!
# Each order reaches its own customer

While an order taker and a customer are in a meeting, the variables that carry the order from one
to the other are theirs.

* `orders_reach`: who leaves the second wait on `CV_OrderTakerBusy` holds a token of its own, and
  its order was entered under it once, with the choice that the customer has stored.
-/

namespace Nachos.Restaurant

open Nachos.Lib Nachos.Threads

/-! ## The property -/

/-- The token that a customer holds. -/
def CustomerAt.token : CustomerAt → Option (ℕ × ℕ)
  | .prepare i _ n | .sit i n | .stand i n => some (i, n)
  | .checkOrder i n | .awaitOrder i n | .takeOrder i n => some (i, n)
  | _ => none

/-- **Each order** reaches its own customer. -/
structure OrdersReach (m : Simulation) : Prop where
  /-- The token that a customer holds is the one with which it left the second wait. -/
  held : ∀ C p i n, m.pc C = some (.customer p) → p.token = some (i, n) →
    (i, n) ∈ m.shared.history.tokens
  /-- An order taker gives nobody else this token. -/
  own : ∀ i j n, (i, n) ∈ m.shared.history.tokens → (j, n) ∈ m.shared.history.numbered → j = i
  customer : ∀ i n, (i, n) ∈ m.shared.history.tokens → m.shared.getCustomerIDFromToken n = i
  /-- The order is entered once, as the customer has stored it. -/
  entered : ∀ i n, (i, n) ∈ m.shared.history.tokens → ∃ choice eatIn,
    m.shared.history.ordered.filter (·.1 = i) = [(i, choice, eatIn)] ∧
      m.shared.history.entered.filter (·.1 = n) = [(n, choice)]
  /-- What can be bagged is entered, and the eat-in flag of its customer is stored. -/
  bagged : ∀ n, m.shared.ordersNeedingBagging n ≠ 0 → ∃ i choice eatIn,
    m.shared.getCustomerIDFromToken n = i ∧ (n, choice) ∈ m.shared.history.entered ∧
      (i, choice, eatIn) ∈ m.shared.history.ordered ∧
      m.shared.getCustomerTogoOrEatinFromCustomerID i = eatIn

/-! ## How far an order is -/

/-- How far an order is. -/
inductive Stage
  | fresh
  | ordered
  | numbered (token : ℕ)
  | told (token : ℕ)
  | entered (token : ℕ)

/-- How far it is when the order taker is at `q` and the customer at `p`. -/
def stage (q : ServiceAt) (p : CustomerAt) : Stage :=
  match q with
  | .numbered _ n => .numbered n
  | .told _ n | .add _ n => .told n
  | .added _ n | .leave _ n => .entered n
  | .respond _ | .paid _ => .ordered
  | .ordered _ =>
    match p with
    | .ordered _ _ | .awaitResponse _ _ | .pay _ _ => .ordered
    | _ => .fresh
  | _ => .fresh

/-- What is stored of the order of the customer `i` with the order taker `k`. -/
def Deal (s : Shared) (i k : ℕ) : Stage → Prop
  | .fresh => ∀ c e, (i, c, e) ∉ s.history.ordered
  | .ordered =>
    (∃ e, (i, s.getCustomerOrderFoodChoiceFromOrderTakerID k, e) ∈ s.history.ordered) ∧
      ∀ n, (i, n) ∉ s.history.numbered
  | .numbered n =>
    (∃ e, (i, s.getCustomerOrderFoodChoiceFromOrderTakerID k, e) ∈ s.history.ordered) ∧
      (i, n) ∈ s.history.numbered ∧ ∀ c, (n, c) ∉ s.history.entered
  | .told n =>
    (∃ e, (i, s.getCustomerOrderFoodChoiceFromOrderTakerID k, e) ∈ s.history.ordered) ∧
      (i, n) ∈ s.history.numbered ∧ (∀ c, (n, c) ∉ s.history.entered) ∧
      s.getCustomerIDFromToken n = i
  | .entered n => (i, n) ∈ s.history.numbered ∧ ∃ c, (n, c) ∈ s.history.entered

/-- **What is stored** of all orders. -/
structure Books (s : Shared) : Prop where
  tokens_range : s.history.numbered.map Prod.snd = List.range s.orderNumCounter
  numbered_nodup : (s.history.numbered.map Prod.fst).Nodup
  numbered_ordered : ∀ i n, (i, n) ∈ s.history.numbered → ∃ c e, (i, c, e) ∈ s.history.ordered
  orderNumber : ∀ i n, (i, n) ∈ s.history.numbered → s.orderNumberFromCustomerID i = n
  entered_nodup : (s.history.entered.map Prod.fst).Nodup
  entered_order : ∀ n c, (n, c) ∈ s.history.entered → ∃ i e, (i, n) ∈ s.history.numbered ∧
    (i, c, e) ∈ s.history.ordered ∧ s.getCustomerIDFromToken n = i
  ordered_nodup : (s.history.ordered.map Prod.fst).Nodup
  ordered_known : ∀ i c e, (i, c, e) ∈ s.history.ordered → i < s.countNumCustomers
  togo : ∀ i c e, (i, c, e) ∈ s.history.ordered → s.getCustomerTogoOrEatinFromCustomerID i = e
  tokens : ∀ i n, (i, n) ∈ s.history.tokens →
    (i, n) ∈ s.history.numbered ∧ ∃ c, (n, c) ∈ s.history.entered
  bagging : ∀ n, s.ordersNeedingBagging n ≠ 0 → ∃ c, (n, c) ∈ s.history.entered

/-- The points before a customer orders. -/
def CustomerAt.Early : CustomerAt → Prop
  | .chooseEatIn _ | .joinLineToEnter _ | .leaveLineToEnter _ | .lineToOrder _ _ => True
  | .joinLineToOrder _ _ | .called _ _ | .meet _ _ | .order _ _ => True
  | _ => False

/-- Someone takes the order of the customer. -/
def Served (m : Simulation) (i : ℕ) : Prop :=
  ∃ S r k q, m.pc S = some r ∧ r.serving = some (k, q) ∧ q.custID = some i

/-- **The orders** of all customers. -/
structure Orders (m : Simulation) : Prop where
  books : Books m.shared
  early : ∀ C p i, m.pc C = some (.customer p) → p.id = some i → p.Early →
    Deal m.shared i 0 .fresh
  deals : ∀ i S C k q p eatIn, Session m i S C k q p eatIn → Deal m.shared i k (stage q p)
  getToken : ∀ C i eatIn, m.pc C = some (.customer (.getToken i eatIn)) →
    Served m i ∨ ∃ n, Deal m.shared i 0 (.entered n)
  held : ∀ C p i n, m.pc C = some (.customer p) → p.token = some (i, n) →
    (i, n) ∈ m.shared.history.tokens

/-! ## What the orders give -/

theorem filter_fst_eq {α β : Type} [DecidableEq α] {l : List (α × β)} {a : α} {b : β}
    (h : (l.map Prod.fst).Nodup) (hmem : (a, b) ∈ l) : l.filter (·.1 = a) = [(a, b)] := by
  induction l with
  | nil => cases hmem
  | cons x l ih =>
    rw [List.map_cons, List.nodup_cons] at h
    rcases List.mem_cons.mp hmem with rfl | hl
    · rw [List.filter_cons_of_pos (by simp)]
      congr 1
      rw [List.filter_eq_nil_iff]
      rintro y hy heq
      rw [decide_eq_true_eq] at heq
      exact h.1 (List.mem_map.mpr ⟨y, hy, heq⟩)
    · have hne : x.1 ≠ a := by
        rintro rfl
        exact h.1 (List.mem_map.mpr ⟨_, hl, rfl⟩)
      rw [List.filter_cons_of_neg (by simpa using hne)]
      exact ih h.2 hl

namespace Books

variable {s : Shared}

theorem token_lt (h : Books s) {i n : ℕ} (hn : (i, n) ∈ s.history.numbered) :
    n < s.orderNumCounter := by
  have hmem : n ∈ s.history.numbered.map Prod.snd := List.mem_map_of_mem hn
  rwa [h.tokens_range, List.mem_range] at hmem

/-- No token is given twice. -/
theorem token_unique (h : Books s) {i j n : ℕ} (hi : (i, n) ∈ s.history.numbered)
    (hj : (j, n) ∈ s.history.numbered) : i = j := by
  have hnodup : (s.history.numbered.map Prod.snd).Nodup := by
    rw [h.tokens_range]
    exact List.nodup_range
  exact congrArg Prod.fst (List.inj_on_of_nodup_map hnodup hi hj rfl)

end Books

theorem Orders.reach {m : Simulation} (h : Orders m) : OrdersReach m := by
  have hbooks := h.books
  refine ⟨h.held, ?_, ?_, ?_, ?_⟩
  · intro i j n hi hj
    exact hbooks.token_unique hj (hbooks.tokens i n hi).1
  · intro i n hi
    obtain ⟨hnumbered, c, hentered⟩ := hbooks.tokens i n hi
    obtain ⟨j, e, hj, -, hcustomer⟩ := hbooks.entered_order n c hentered
    rw [hcustomer, hbooks.token_unique hj hnumbered]
  · intro i n hi
    obtain ⟨hnumbered, c, hentered⟩ := hbooks.tokens i n hi
    obtain ⟨j, e, hj, hordered, -⟩ := hbooks.entered_order n c hentered
    cases hbooks.token_unique hj hnumbered
    exact ⟨c, e, filter_fst_eq hbooks.ordered_nodup hordered,
      filter_fst_eq hbooks.entered_nodup hentered⟩
  · intro n hn
    obtain ⟨c, hentered⟩ := hbooks.bagging n hn
    obtain ⟨i, e, -, hordered, hcustomer⟩ := hbooks.entered_order n c hentered
    exact ⟨i, c, e, hcustomer, hentered, hordered, hbooks.togo i c e hordered⟩

/-! ## What is stored at each point -/

namespace Books

variable {s : Shared} {i k n : ℕ}

/-- The customer stores its order. -/
theorem order (h : Books s) (hi : i < s.countNumCustomers) (hfresh : Deal s i 0 .fresh)
    (choice : ℕ) (choices : ℕ → ℕ) (eatIn : Bool) :
    Books { s with
      getCustomerOrderFoodChoiceFromOrderTakerID := choices
      getCustomerTogoOrEatinFromCustomerID :=
        Function.update s.getCustomerTogoOrEatinFromCustomerID i eatIn
      history := { s.history with ordered := s.history.ordered ++ [(i, choice, eatIn)] } } := by
  have hne {j c : ℕ} {e : Bool} (hj : (j, c, e) ∈ s.history.ordered) : j ≠ i := by
    rintro rfl
    exact hfresh c e hj
  have hmem {j c : ℕ} {e : Bool} (hj : (j, c, e) ∈ s.history.ordered ++ [(i, choice, eatIn)]) :
      (j, c, e) ∈ s.history.ordered ∨ j = i ∧ c = choice ∧ e = eatIn := by
    rw [List.mem_append, List.mem_singleton] at hj
    simpa using hj
  refine ⟨h.tokens_range, h.numbered_nodup, ?_, h.orderNumber, h.entered_nodup, ?_, ?_, ?_, ?_,
    h.tokens, h.bagging⟩
  · intro j n hn
    obtain ⟨c, e, hj⟩ := h.numbered_ordered j n hn
    exact ⟨c, e, List.mem_append_left _ hj⟩
  · intro n c hn
    obtain ⟨j, e, hj, hordered, hcustomer⟩ := h.entered_order n c hn
    exact ⟨j, e, hj, List.mem_append_left _ hordered, hcustomer⟩
  · show ((s.history.ordered ++ [(i, choice, eatIn)]).map Prod.fst).Nodup
    rw [List.map_append, List.map_singleton, ← List.concat_eq_append]
    apply h.ordered_nodup.concat
    intro hin
    obtain ⟨⟨j, c, e⟩, hj, rfl⟩ := List.mem_map.mp hin
    exact hne hj rfl
  · intro j c e hj
    rcases hmem hj with hold | ⟨rfl, -, -⟩
    · exact h.ordered_known j c e hold
    · exact hi
  · intro j c e hj
    show Function.update s.getCustomerTogoOrEatinFromCustomerID i eatIn j = e
    rcases hmem hj with hold | ⟨rfl, -, rfl⟩
    · rw [Function.update_of_ne (hne hold)]
      exact h.togo j c e hold
    · rw [Function.update_self]

/-- The order taker gives the customer a token. -/
theorem number (h : Books s) (hdeal : Deal s i k .ordered) :
    Books { s with
      orderNumCounter := s.orderNumCounter + 1
      orderNumberFromCustomerID :=
        Function.update s.orderNumberFromCustomerID i s.orderNumCounter
      history := { s.history with
        numbered := s.history.numbered ++ [(i, s.orderNumCounter)] } } := by
  obtain ⟨⟨eatIn, hordered⟩, hnumbered⟩ := hdeal
  have hmem {j n : ℕ} (hj : (j, n) ∈ s.history.numbered ++ [(i, s.orderNumCounter)]) :
      (j, n) ∈ s.history.numbered ∨ j = i ∧ n = s.orderNumCounter := by
    rw [List.mem_append, List.mem_singleton] at hj
    simpa using hj
  refine ⟨?_, ?_, ?_, ?_, h.entered_nodup, ?_, h.ordered_nodup, h.ordered_known, h.togo, ?_,
    h.bagging⟩
  · show (s.history.numbered ++ [(i, s.orderNumCounter)]).map Prod.snd =
      List.range (s.orderNumCounter + 1)
    rw [List.map_append, h.tokens_range, List.range_succ, List.map_singleton]
  · show ((s.history.numbered ++ [(i, s.orderNumCounter)]).map Prod.fst).Nodup
    rw [List.map_append, List.map_singleton, ← List.concat_eq_append]
    apply h.numbered_nodup.concat
    intro hin
    obtain ⟨⟨j, n⟩, hj, rfl⟩ := List.mem_map.mp hin
    exact hnumbered n hj
  · intro j n hj
    rcases hmem hj with hold | ⟨rfl, rfl⟩
    · exact h.numbered_ordered j n hold
    · exact ⟨_, eatIn, hordered⟩
  · intro j n hj
    show Function.update s.orderNumberFromCustomerID i s.orderNumCounter j = n
    rcases hmem hj with hold | ⟨rfl, rfl⟩
    · have hne : j ≠ i := by
        rintro rfl
        exact hnumbered n hold
      rw [Function.update_of_ne hne]
      exact h.orderNumber j n hold
    · rw [Function.update_self]
  · intro n c hn
    obtain ⟨j, e, hj, hrest⟩ := h.entered_order n c hn
    exact ⟨j, e, List.mem_append_left _ hj, hrest⟩
  · intro j n hj
    exact (h.tokens j n hj).imp_left (List.mem_append_left _)

/-- The order taker stores whose token it is. -/
theorem tell (h : Books s) (hentered : ∀ c, (n, c) ∉ s.history.entered) (i : ℕ) :
    Books { s with getCustomerIDFromToken := Function.update s.getCustomerIDFromToken n i } := by
  refine ⟨h.tokens_range, h.numbered_nodup, h.numbered_ordered, h.orderNumber, h.entered_nodup, ?_,
    h.ordered_nodup, h.ordered_known, h.togo, h.tokens, h.bagging⟩
  intro n' c hn
  obtain ⟨j, e, hj, hordered, hcustomer⟩ := h.entered_order n' c hn
  have hne : n' ≠ n := by
    rintro rfl
    exact hentered c hn
  exact ⟨j, e, hj, hordered, (Function.update_of_ne hne _ _).trans hcustomer⟩

/-- The order taker enters the order. -/
theorem enter (h : Books s) (hdeal : Deal s i k (.told n)) :
    Books { s with
      ordersNeedingBagging := Function.update s.ordersNeedingBagging n
        (s.getCustomerOrderFoodChoiceFromOrderTakerID k)
      history := { s.history with
        entered := s.history.entered ++
          [(n, s.getCustomerOrderFoodChoiceFromOrderTakerID k)] } } := by
  obtain ⟨⟨eatIn, hordered⟩, hnumbered, hentered, hcustomer⟩ := hdeal
  refine ⟨h.tokens_range, h.numbered_nodup, h.numbered_ordered, h.orderNumber, ?_, ?_,
    h.ordered_nodup, h.ordered_known, h.togo, ?_, ?_⟩
  · show ((s.history.entered ++ [(n, _)]).map Prod.fst).Nodup
    rw [List.map_append, List.map_singleton, ← List.concat_eq_append]
    apply h.entered_nodup.concat
    intro hin
    obtain ⟨⟨n', c⟩, hn, rfl⟩ := List.mem_map.mp hin
    exact hentered c hn
  · intro n' c hn
    change (n', c) ∈ s.history.entered ++ [_] at hn
    rw [List.mem_append, List.mem_singleton] at hn
    rcases hn with hold | hnew
    · exact h.entered_order n' c hold
    · cases hnew
      exact ⟨i, eatIn, hnumbered, hordered, hcustomer⟩
  · intro j n' hj
    obtain ⟨hnumbered', c, hentered'⟩ := h.tokens j n' hj
    exact ⟨hnumbered', c, List.mem_append_left _ hentered'⟩
  · intro n' hn
    change Function.update s.ordersNeedingBagging n _ n' ≠ 0 at hn
    by_cases hn' : n' = n
    · subst hn'
      exact ⟨_, List.mem_append_right _ (List.mem_singleton_self _)⟩
    · rw [Function.update_of_ne hn'] at hn
      obtain ⟨c, hc⟩ := h.bagging n' hn
      exact ⟨c, List.mem_append_left _ hc⟩

/-- The customer takes its token. -/
theorem take (h : Books s) (hdeal : Deal s i k (.entered n)) :
    Books { s with history := { s.history with
      tokens := s.history.tokens ++ [(i, s.orderNumberFromCustomerID i)] } } := by
  refine ⟨h.tokens_range, h.numbered_nodup, h.numbered_ordered, h.orderNumber, h.entered_nodup,
    h.entered_order, h.ordered_nodup, h.ordered_known, h.togo, ?_, h.bagging⟩
  intro j n' hj
  change (j, n') ∈ s.history.tokens ++ [_] at hj
  rw [List.mem_append, List.mem_singleton] at hj
  rcases hj with hold | hnew
  · exact h.tokens j n' hold
  · cases hnew
    rw [h.orderNumber i n hdeal.1]
    exact hdeal

/-- Other routines only bag. -/
theorem of_same {s' : Shared} (h : Books s) (hsame : SameOrders s s')
    (hcount : s.countNumCustomers ≤ s'.countNumCustomers) : Books s' := by
  refine ⟨?_, ?_, ?_, ?_, ?_, ?_, ?_, ?_, ?_, ?_, ?_⟩
  · rw [hsame.numbered, hsame.counter]
    exact h.tokens_range
  · rw [hsame.numbered]
    exact h.numbered_nodup
  · rw [hsame.numbered, hsame.ordered]
    exact h.numbered_ordered
  · rw [hsame.numbered, hsame.orderNumber]
    exact h.orderNumber
  · rw [hsame.entered]
    exact h.entered_nodup
  · rw [hsame.entered, hsame.numbered, hsame.ordered, hsame.customerID]
    exact h.entered_order
  · rw [hsame.ordered]
    exact h.ordered_nodup
  · rw [hsame.ordered]
    intro i c e hi
    exact (h.ordered_known i c e hi).trans_le hcount
  · rw [hsame.ordered, hsame.togo]
    exact h.togo
  · rw [hsame.tokens, hsame.numbered, hsame.entered]
    exact h.tokens
  · intro n hn
    rw [hsame.entered]
    apply h.bagging n
    intro hzero
    exact hn (hsame.bagging n hzero)

end Books

/-- What a thread that runs has to know of the orders. -/
structure Knows (s : Shared) (r : Pc) : Prop where
  serving : ∀ k q i, r.serving = some (k, q) → q.custID = some i → ∃ p, Deal s i k (stage q p)
  order : ∀ i eatIn, r = .customer (.order i eatIn) →
    i < s.countNumCustomers ∧ Deal s i 0 .fresh
  getToken : ∀ i eatIn, r = .customer (.getToken i eatIn) → ∃ n, Deal s i 0 (.entered n)

/-- **What is stored** stays true. -/
theorem Books.program {s : Shared} {r : Pc} (h : Books s) (hknows : Knows s r) (x : ℕ) :
    Books (program r x s).shared := by
  rcases point_cases r x s with ⟨k, q, f, hserving, hprogram, -⟩ | ⟨p, rfl, horders⟩ |
    ⟨-, -, haside⟩
  · rw [hprogram]
    have hsame {s' : Shared} (hs : SameOrders s s')
        (hcount : s'.countNumCustomers = s.countNumCustomers) : Books s' := h.of_same hs hcount.ge
    cases q
    case look =>
      simp only [serviceCustomer]
      split_ifs
      · exact h
      · exact ⟨h.1, h.2, h.3, h.4, h.5, h.6, h.7, h.8, h.9, h.10, h.11⟩
    case paid i =>
      obtain ⟨p, hdeal⟩ := hknows.serving k _ i hserving rfl
      have hnumber := h.number (k := k) hdeal
      simp only [serviceCustomer]
      split_ifs
      · exact hnumber
      · refine hnumber.tell ?_ i
        intro c hc
        obtain ⟨j, e, hj, -⟩ := h.entered_order _ c hc
        exact absurd (h.token_lt hj) (lt_irrefl _)
    case numbered i n =>
      obtain ⟨p, hdeal⟩ := hknows.serving k _ i hserving rfl
      exact h.tell hdeal.2.2 i
    case add i n =>
      obtain ⟨p, hdeal⟩ := hknows.serving k _ i hserving rfl
      exact h.enter hdeal
    all_goals exact h
  · cases p
    case order i eatIn =>
      obtain ⟨hi, hfresh⟩ := hknows.order i eatIn rfl
      exact h.order hi hfresh _ _ eatIn
    case getToken i eatIn =>
      obtain ⟨n, hdeal⟩ := hknows.getToken i eatIn rfl
      have htake := h.take hdeal
      simp only [Restaurant.program, customer]
      split_ifs <;> exact htake
    case joinLineToOrder i eatIn => exact ⟨h.1, h.2, h.3, h.4, h.5, h.6, h.7, h.8, h.9, h.10, h.11⟩
    case pay i eatIn => exact ⟨h.1, h.2, h.3, h.4, h.5, h.6, h.7, h.8, h.9, h.10, h.11⟩
    all_goals first
      | exact horders.elim
      | exact h
  · refine h.of_same haside.same ?_
    rcases (takes_customer r x s).1 with ⟨-, hcount⟩ | ⟨-, hcount⟩
    · exact hcount.ge
    · exact (Nat.le_succ _).trans hcount.ge

/-! ## The orders of the others -/

/-- What is stored of the order of `i` stays as it is. -/
structure Leaves (s s' : Shared) (i : ℕ) : Prop where
  ordered : ∀ c e, (i, c, e) ∈ s'.history.ordered ↔ (i, c, e) ∈ s.history.ordered
  numbered : ∀ n, (i, n) ∈ s'.history.numbered ↔ (i, n) ∈ s.history.numbered
  entered : ∀ n c, (i, n) ∈ s.history.numbered →
    ((n, c) ∈ s'.history.entered ↔ (n, c) ∈ s.history.entered)
  customerID : ∀ n, (i, n) ∈ s.history.numbered →
    s'.getCustomerIDFromToken n = s.getCustomerIDFromToken n

theorem Leaves.of_eq {s s' : Shared} {i : ℕ} (hordered : s'.history.ordered = s.history.ordered)
    (hnumbered : s'.history.numbered = s.history.numbered)
    (hentered : s'.history.entered = s.history.entered)
    (hcustomerID : s'.getCustomerIDFromToken = s.getCustomerIDFromToken) : Leaves s s' i :=
  ⟨fun _ _ => by rw [hordered], fun _ => by rw [hnumbered], fun _ _ _ => by rw [hentered],
    fun _ _ => by rw [hcustomerID]⟩

theorem Deal.of_leaves {s s' : Shared} {i k : ℕ} {st : Stage} (h : Deal s i k st)
    (hleaves : Leaves s s' i) (hchoice : s'.getCustomerOrderFoodChoiceFromOrderTakerID k =
      s.getCustomerOrderFoodChoiceFromOrderTakerID k) : Deal s' i k st := by
  cases st with
  | fresh =>
    intro c e hc
    exact h c e ((hleaves.ordered c e).mp hc)
  | ordered =>
    obtain ⟨⟨e, he⟩, hnumbered⟩ := h
    refine ⟨⟨e, ?_⟩, fun n hn => hnumbered n ((hleaves.numbered n).mp hn)⟩
    rw [hchoice]
    exact (hleaves.ordered _ e).mpr he
  | numbered n =>
    obtain ⟨⟨e, he⟩, hnumbered, hentered⟩ := h
    refine ⟨⟨e, ?_⟩, (hleaves.numbered n).mpr hnumbered,
      fun c hc => hentered c ((hleaves.entered n c hnumbered).mp hc)⟩
    rw [hchoice]
    exact (hleaves.ordered _ e).mpr he
  | told n =>
    obtain ⟨⟨e, he⟩, hnumbered, hentered, hcustomer⟩ := h
    refine ⟨⟨e, ?_⟩, (hleaves.numbered n).mpr hnumbered,
      fun c hc => hentered c ((hleaves.entered n c hnumbered).mp hc),
      (hleaves.customerID n hnumbered).trans hcustomer⟩
    rw [hchoice]
    exact (hleaves.ordered _ e).mpr he
  | entered n =>
    obtain ⟨hnumbered, c, hc⟩ := h
    exact ⟨(hleaves.numbered n).mpr hnumbered, c, (hleaves.entered n c hnumbered).mpr hc⟩

/-- **Another thread** leaves the order of a customer as it is. -/
theorem leaves_program {s : Shared} {r : Pc} {i : ℕ} (h : Books s) (hknows : Knows s r)
    (hserving : ∀ k q, r.serving = some (k, q) → q.custID ≠ some i)
    (horder : ∀ eatIn, r ≠ .customer (.order i eatIn)) (x : ℕ) :
    Leaves s (program r x s).shared i := by
  rcases point_cases r x s with ⟨k, q, f, hserve, hprogram, -⟩ | ⟨p, rfl, horders⟩ |
    ⟨-, -, haside⟩
  · rw [hprogram]
    have hne {j : ℕ} (hj : q.custID = some j) : i ≠ j := by
      rintro rfl
      exact hserving k q hserve hj
    cases q
    case look =>
      simp only [serviceCustomer]
      split_ifs <;> exact Leaves.of_eq rfl rfl rfl rfl
    case paid j =>
      have hnumbered (n : ℕ) : (i, n) ∈ s.history.numbered ++ [(j, s.orderNumCounter)] ↔
          (i, n) ∈ s.history.numbered := by
        simp [hne rfl]
      simp only [serviceCustomer]
      split_ifs
      · exact ⟨fun _ _ => Iff.rfl, hnumbered, fun _ _ _ => Iff.rfl, fun _ _ => rfl⟩
      · refine ⟨fun _ _ => Iff.rfl, hnumbered, fun _ _ _ => Iff.rfl, fun n hn => ?_⟩
        exact Function.update_of_ne (h.token_lt hn).ne _ _
    case numbered j n =>
      obtain ⟨p, -, hn, -⟩ := hknows.serving k _ j hserve rfl
      refine ⟨fun _ _ => Iff.rfl, fun _ => Iff.rfl, fun _ _ _ => Iff.rfl, fun n' hn' => ?_⟩
      refine Function.update_of_ne ?_ _ _
      rintro rfl
      exact hne rfl (h.token_unique hn' hn)
    case add j n =>
      obtain ⟨p, -, hn, -⟩ := hknows.serving k _ j hserve rfl
      refine ⟨fun _ _ => Iff.rfl, fun _ => Iff.rfl, fun n' c hn' => ?_, fun _ _ => rfl⟩
      have hnn' : n' ≠ n := by
        rintro rfl
        exact hne rfl (h.token_unique hn' hn)
      show (n', c) ∈ s.history.entered ++ [_] ↔ _
      simp [hnn']
    all_goals exact Leaves.of_eq rfl rfl rfl rfl
  · cases p
    case order j eatIn =>
      have hne : i ≠ j := by
        rintro rfl
        exact horder eatIn rfl
      refine ⟨fun c e => ?_, fun _ => Iff.rfl, fun _ _ _ => Iff.rfl, fun _ _ => rfl⟩
      show (i, c, e) ∈ s.history.ordered ++ [_] ↔ _
      simp [hne]
    case getToken j eatIn =>
      simp only [program, customer]
      split_ifs <;> exact Leaves.of_eq rfl rfl rfl rfl
    all_goals first
      | exact horders.elim
      | exact Leaves.of_eq rfl rfl rfl rfl
  · have hsame := haside.same
    exact Leaves.of_eq hsame.ordered hsame.numbered hsame.entered hsame.customerID

/-- Only a customer that orders stores a choice. -/
theorem choice_program (r : Pc) (x : ℕ) (s : Shared) (k : ℕ) :
    (program r x s).shared.getCustomerOrderFoodChoiceFromOrderTakerID k =
        s.getCustomerOrderFoodChoiceFromOrderTakerID k ∨
      ∃ i eatIn, r = .customer (.order i eatIn) ∧ s.getOrderTakerIDFromCustomerID i = k := by
  rcases point_cases r x s with ⟨k', q, f, -, hprogram, -⟩ | ⟨p, rfl, horders⟩ | ⟨-, -, haside⟩
  · left
    rw [hprogram]
    cases q
    case look =>
      simp only [serviceCustomer]
      split_ifs <;> rfl
    case paid i =>
      simp only [serviceCustomer]
      split_ifs <;> rfl
    all_goals rfl
  · cases p
    case order i eatIn =>
      by_cases hk : k = s.getOrderTakerIDFromCustomerID i
      · exact Or.inr ⟨i, eatIn, rfl, hk.symm⟩
      · exact Or.inl (Function.update_of_ne hk _ _)
    case getToken i eatIn =>
      left
      simp only [program, customer]
      split_ifs <;> rfl
    all_goals first
      | exact horders.elim
      | exact Or.inl rfl
  · exact Or.inl (congrFun haside.same.choice k)

/-- Only a customer that orders is no longer early. -/
theorem ordered_program (r : Pc) (x : ℕ) (s : Shared) :
    (program r x s).shared.history.ordered = s.history.ordered ∨
      ∃ i eatIn, r = .customer (.order i eatIn) := by
  rcases point_cases r x s with ⟨k', q, f, -, hprogram, -⟩ | ⟨p, rfl, horders⟩ | ⟨-, -, haside⟩
  · left
    rw [hprogram]
    cases q
    case look =>
      simp only [serviceCustomer]
      split_ifs <;> rfl
    case paid i =>
      simp only [serviceCustomer]
      split_ifs <;> rfl
    all_goals rfl
  · cases p
    case order i eatIn => exact Or.inr ⟨i, eatIn, rfl⟩
    case getToken i eatIn =>
      left
      simp only [program, customer]
      split_ifs <;> rfl
    all_goals first
      | exact horders.elim
      | exact Or.inl rfl
  · exact Or.inl haside.same.ordered

/-! ## Runs -/

theorem Meeting.not_getToken {i k : ℕ} {eatIn eatIn' : Bool} {q : ServiceAt} {sst : Stat}
    (h : Meeting i k eatIn q sst (.getToken i eatIn') .ready) : False := by
  cases h with
  | told token h => rcases h with h | h <;> cases h
  | add token hs h => rcases h with h | h <;> cases h
  | added token h => rcases h with h | h <;> cases h
  | leave token h => rcases h with h | h <;> cases h

section

variable {m : Simulation} {t x : ℕ} {r : Pc}

theorem Session.served {i S C k : ℕ} {q : ServiceAt} {p : CustomerAt} {eatIn : Bool}
    (h : Session m i S C k q p eatIn) : Served m i := by
  obtain ⟨r, hr, hserving⟩ := h.service_pc
  exact ⟨S, r, k, q, hr, hserving, h.meeting.custID⟩

namespace Orders

theorem knows (h : Orders m) (hm : Sessions m) (hr : m.pc t = some r) (ht : m.status t = .ready) :
    Knows m.shared r := by
  constructor
  · intro k q i hserving hi
    obtain ⟨C, p, eatIn, hsession⟩ := hm.served t r k q i hr hserving hi
    exact ⟨p, h.deals i t C k q p eatIn hsession⟩
  · rintro i eatIn rfl
    exact ⟨hm.customers.lt t _ i hr rfl, h.early t _ i hr rfl trivial⟩
  · rintro i eatIn rfl
    refine (h.getToken t i eatIn hr).resolve_left ?_
    rintro ⟨S, r, k, q, hS, hserving, hi⟩
    obtain ⟨C, p, eatIn', hsession⟩ := hm.served S r k q i hS hserving hi
    have hC := hsession.eq_customer hm hr rfl
    subst hC
    cases hr.symm.trans hsession.customer_pc
    have hmeet := hsession.meeting
    rw [ht] at hmeet
    exact hmeet.not_getToken

/-- A customer is early as long as it has not ordered. -/
theorem early_customer {random i : ℕ} {s : Shared} {p : CustomerAt}
    (hi : (customer random s p).pc.id = some i) (hearly : (customer random s p).pc.Early) :
    p.id = some i ∧ p.Early ∧ (∀ eatIn, p ≠ .order i eatIn) ∨
      p = .create ∧ i = s.countNumCustomers := by
  cases p
  case create =>
    cases hi
    exact Or.inr ⟨rfl, rfl⟩
  case chooseEatIn j =>
    simp only [customer] at hi
    split_ifs at hi <;> exact Or.inl ⟨hi, trivial, by rintro _ ⟨⟩⟩
  case getToken j eatIn =>
    simp only [customer] at hearly
    split_ifs at hearly <;> exact hearly.elim
  case prepare j eatIn n =>
    simp only [customer] at hearly
    split_ifs at hearly <;> exact hearly.elim
  case checkOrder j n =>
    simp only [customer] at hearly
    split_ifs at hearly <;> exact hearly.elim
  all_goals first
    | exact hearly.elim
    | exact Or.inl ⟨hi, trivial, by rintro _ ⟨⟩⟩

theorem early_after (h : Orders m) (hm : Sessions m) (hr : m.pc t = some r) {C i : ℕ}
    {p : CustomerAt} (hC : (after m t (program r x m.shared)).pc C = some (.customer p))
    (hi : p.id = some i) (hearly : p.Early) :
    ∀ c e, (i, c, e) ∉ (program r x m.shared).shared.history.ordered := by
  -- before the step
  have hbefore : (∀ c e, (i, c, e) ∉ m.shared.history.ordered) ∧
      ∀ eatIn, r ≠ .customer (.order i eatIn) := by
    rcases Machine.pc_computed hm.ok hC with ⟨rfl, heq⟩ | ⟨hne, hold⟩ | ⟨-, hfork⟩
    · by_cases hcustomer : ∃ p₀, r = .customer p₀
      · obtain ⟨p₀, rfl⟩ := hcustomer
        cases heq
        rcases early_customer hi hearly with ⟨hi₀, hearly₀, horder⟩ | ⟨rfl, rfl⟩
        · refine ⟨h.early C p₀ i hr hi₀ hearly₀, ?_⟩
          intro eatIn heq
          cases heq
          exact horder eatIn rfl
        · refine ⟨?_, nofun⟩
          intro c e hc
          exact absurd (h.books.ordered_known _ c e hc) (lt_irrefl _)
      · have hnone := customerID_program (fun p₀ h => hcustomer ⟨p₀, h⟩) x m.shared
        rw [← heq] at hnone
        cases hnone.symm.trans hi
    · refine ⟨h.early C p i hold hi hearly, ?_⟩
      rintro eatIn rfl
      exact hne (hm.customers.unique C t _ _ i hold hr hi rfl)
    · cases (fork_program hfork).2.symm.trans hi
  obtain ⟨hfresh, horder⟩ := hbefore
  rcases ordered_program r x m.shared with hsame | ⟨j, eatIn, rfl⟩
  · rw [hsame]
    exact hfresh
  · intro c e hc
    change (i, c, e) ∈ m.shared.history.ordered ++ [_] at hc
    rw [List.mem_append, List.mem_singleton] at hc
    rcases hc with hold | hnew
    · exact hfresh c e hold
    · cases hnew
      exact horder _ rfl

/-- The order taker has done something for the order. -/
theorem deal_service {s : Shared} {i k : ℕ} {q q' : ServiceAt} {sst st : Stat} {p : CustomerAt}
    {eatIn : Bool} (h : Books s) (hmeet : Meeting i k eatIn q sst p st) (hS : sst = .ready)
    (hdeal : Deal s i k (stage q p)) (hq' : (serviceCustomer k s q).pc = some q') :
    Deal (serviceCustomer k s q).shared i k (stage q' p) := by
  subst hS
  cases hmeet with
  | chosen hl => cases hq'; exact hdeal
  | acquired hs hl => cases hq'; exact hdeal
  | ask hl => cases hq'; exact hdeal
  | askMeet => cases hq'; exact hdeal
  | awaitResponse hs => rcases hs with hs | hs <;> cases hs
  | respond hs => cases hq'; exact hdeal
  | responded hl => cases hq'; exact hdeal
  | paid hs => rcases hs with hs | hs <;> cases hs
  | number hs =>
    obtain ⟨hordered, hnumbered⟩ := hdeal
    have hentered (c : ℕ) : (s.orderNumCounter, c) ∉ s.history.entered := by
      intro hc
      obtain ⟨j, e, hj, -⟩ := h.entered_order _ c hc
      exact absurd (h.token_lt hj) (lt_irrefl _)
    have hnew : (i, s.orderNumCounter) ∈ s.history.numbered ++ [(i, s.orderNumCounter)] :=
      List.mem_append_right _ (List.mem_singleton_self _)
    simp only [serviceCustomer] at hq' ⊢
    split_ifs at hq' ⊢
    · cases hq'
      exact ⟨hordered, hnew, hentered⟩
    · cases hq'
      exact ⟨hordered, hnew, hentered, Function.update_self ..⟩
  | numbered token =>
    cases hq'
    obtain ⟨hordered, hnumbered, hentered⟩ := hdeal
    exact ⟨hordered, hnumbered, hentered, Function.update_self ..⟩
  | told token hl => cases hq'; exact hdeal
  | add token hs hl =>
    cases hq'
    exact ⟨hdeal.2.1, _, List.mem_append_right _ (List.mem_singleton_self _)⟩
  | added token hl => cases hq'; exact hdeal
  | leave token hl => cases hq'

/-- The customer has done something for its order. -/
theorem deal_customer {s : Shared} {i k random : ℕ} {q : ServiceAt} {sst st : Stat}
    {p : CustomerAt} {eatIn : Bool} (h : Books s) (hmeet : Meeting i k eatIn q sst p st)
    (hC : st = .ready) (hid : s.getOrderTakerIDFromCustomerID i = k)
    (hdeal : Deal s i k (stage q p)) :
    Deal (customer random s p).shared i k (stage q (customer random s p).pc) := by
  subst hC
  cases hmeet with
  | order =>
    refine ⟨⟨eatIn, ?_⟩, ?_⟩
    · show (i, Function.update s.getCustomerOrderFoodChoiceFromOrderTakerID
        (s.getOrderTakerIDFromCustomerID i) _ k, eatIn) ∈ s.history.ordered ++ [_]
      rw [hid, Function.update_self]
      exact List.mem_append_right _ (List.mem_singleton_self _)
    · intro n hn
      obtain ⟨c, e, hc⟩ := h.numbered_ordered i n hn
      exact hdeal c e hc
  | told token hl => rcases hl with hl | hl <;> cases hl
  | add token hs hl => rcases hl with hl | hl <;> cases hl
  | added token hl => rcases hl with hl | hl <;> cases hl
  | leave token hl => rcases hl with hl | hl <;> cases hl
  | _ => exact hdeal

theorem deals_after (h : Orders m) (hm : Sessions m) (hr : m.pc t = some r)
    (ht : m.status t = .ready) {i S C k : ℕ} {q : ServiceAt} {p : CustomerAt} {eatIn : Bool}
    (hafter : Session (after m t (program r x m.shared)) i S C k q p eatIn) :
    Deal (program r x m.shared).shared i k (stage q p) := by
  have hm' := hm.after_call hr ht x
  have hknows := h.knows hm hr ht
  obtain ⟨r', hr', hserving'⟩ := hafter.service_pc
  rcases hm.served_before hr hr' hserving' hafter.meeting.custID with
    ⟨r₀, q₀, hr₀, hserving₀, hi₀⟩ | ⟨rfl, hpops, rfl⟩
  · obtain ⟨C₀, p₀, e₀, hsession⟩ := hm.served S r₀ k q₀ i hr₀ hserving₀ hi₀
    have hdeal := h.deals i S C₀ k q₀ p₀ e₀ hsession
    by_cases hSt : S = t
    · subst hSt
      cases hr.symm.trans hr₀
      obtain ⟨f, hprogram, hf⟩ := program_serving hserving₀ x m.shared
      rcases hsession.of_service hm hr ht x with ⟨q', hq', hnext⟩ | ⟨hnone, -⟩
      · obtain ⟨-, rfl⟩ := hnext.service_eq hr' hserving'
        cases hafter.eq_customer hm' hnext.customer_pc hnext.meeting.id
        cases hafter.customer_pc.symm.trans hnext.customer_pc
        rw [hprogram]
        exact deal_service h.books hsession.meeting ht hdeal hq'
      · -- the order taker has left
        rw [Machine.pc_computed_self hm.ok (by simp [hr] : m.pc S ≠ none), hprogram] at hr'
        cases hr'
        change (f (serviceCustomer k m.shared q₀).pc).serving = _ at hserving'
        rw [hnone] at hserving'
        have hi := hafter.meeting.custID
        rw [hf.returns k q hserving'] at hi
        cases hi
    · by_cases hCt : C₀ = t
      · subst hCt
        cases hr.symm.trans hsession.customer_pc
        have hnext := hsession.of_customer hm ht x
        obtain ⟨-, rfl⟩ := hnext.service_eq hr' hserving'
        cases hafter.eq_customer hm' hnext.customer_pc hnext.meeting.id
        cases hafter.customer_pc.symm.trans hnext.customer_pc
        exact deal_customer h.books hsession.meeting ht hsession.orderTakerID hdeal
      · have hnext := hsession.of_other hm hr ht hSt hCt x
        obtain ⟨-, rfl⟩ := hnext.service_eq hr' hserving'
        cases hafter.eq_customer hm' hnext.customer_pc hnext.meeting.id
        cases hafter.customer_pc.symm.trans hnext.customer_pc
        refine hdeal.of_leaves (leaves_program h.books hknows ?_ ?_ x) ?_
        · intro k' q' hserving hi
          exact hSt (hm.one S t r₀ r k k' _ q' i hr₀ hr hserving₀ hserving hi₀ hi)
        · rintro eatIn' rfl
          exact hCt (hsession.eq_customer hm hr rfl).symm
        · rcases choice_program r x m.shared k with hsame | ⟨j, eatIn', rfl, hk⟩
          · exact hsame
          · -- another customer of this order taker
            obtain ⟨S', k', q', e', hother⟩ := hm.engaged t _ j hr rfl trivial
            obtain ⟨rS, hrS, hservingS⟩ := hother.service_pc
            have hk' : k' = k := hother.orderTakerID.symm.trans hk
            subst hk'
            cases hsession.eq_orderTaker hm hrS (orderTakerID_of_serving hservingS)
            cases hsession.eq_of_same hother
            exact absurd (hsession.eq_customer hm hr rfl).symm hCt
  · -- a customer that has just been called
    obtain ⟨C₀, eatIn₀, hC₀, -⟩ := hm.popped hpops
    have hfresh := h.early C₀ _ i hC₀ rfl trivial
    obtain ⟨-, -, hshared⟩ := program_pops hpops x
    rw [hshared]
    exact hfresh

theorem getToken_after (h : Orders m) (hm : Sessions m) (hr : m.pc t = some r)
    (ht : m.status t = .ready) {C i : ℕ} {eatIn : Bool}
    (hC : (after m t (program r x m.shared)).pc C = some (.customer (.getToken i eatIn))) :
    Served (after m t (program r x m.shared)) i ∨
      ∃ n, Deal (program r x m.shared).shared i 0 (.entered n) := by
  have hknows := h.knows hm hr ht
  rcases Machine.pc_computed hm.ok hC with ⟨rfl, heq⟩ | ⟨hne, hold⟩ | ⟨-, hfork⟩
  · -- the customer has begun to wait for its number
    left
    by_cases hcustomer : ∃ p₀, r = .customer p₀
    · obtain ⟨p₀, rfl⟩ := hcustomer
      have hpaid : p₀ = .paid i eatIn := by
        change Pc.customer _ = Pc.customer (customer x m.shared p₀).pc at heq
        have hpc : (customer x m.shared p₀).pc = .getToken i eatIn := by
          injection heq.symm
        cases p₀
        case paid j e =>
          cases hpc
          rfl
        all_goals
          simp only [customer] at hpc
          try split_ifs at hpc
        all_goals cases hpc
      subst hpaid
      obtain ⟨S, k, q, e, hsession⟩ := hm.engaged C _ i hr rfl trivial
      exact (hsession.of_customer hm ht x).served
    · have hnone := customerID_program (fun p₀ h => hcustomer ⟨p₀, h⟩) x m.shared
      rw [← heq] at hnone
      cases hnone
  · by_cases hserved : Served m i
    · obtain ⟨S, r₀, k, q, hS, hserving, hi⟩ := hserved
      obtain ⟨C₀, p, e, hsession⟩ := hm.served S r₀ k q i hS hserving hi
      cases hsession.eq_customer hm hold rfl
      by_cases hSt : S = t
      · subst hSt
        rcases hsession.of_service hm hr ht x with ⟨q', -, hnext⟩ | ⟨hnone, -⟩
        · exact Or.inl hnext.served
        · -- the order is entered when the order taker leaves
          right
          cases hr.symm.trans hS
          obtain ⟨f, hprogram, -⟩ := program_serving hserving x m.shared
          have hdeal := h.deals i S C k q p e hsession
          cases q
          case leave j n =>
            rw [hprogram]
            exact ⟨n, hdeal⟩
          case look => cases hi
          all_goals
            simp only [serviceCustomer] at hnone
            try split_ifs at hnone
          all_goals cases hnone
      · exact Or.inl (hsession.of_other hm hr ht hSt hne x).served
    · right
      obtain ⟨n, hnumbered, c, hc⟩ := (h.getToken C i eatIn hold).resolve_left hserved
      have hleaves := leaves_program (i := i) h.books hknows
        (fun k q hserving hi => hserved ⟨t, r, k, q, hr, hserving, hi⟩)
        (by
          rintro e rfl
          exact hne (hm.customers.unique C t _ _ i hold hr rfl rfl)) x
      exact ⟨n, (hleaves.numbered n).mpr hnumbered, c, (hleaves.entered n c hnumbered).mpr hc⟩
  · cases (fork_program hfork).2

/-- A token is taken at the second wait, and kept. -/
theorem held_after (h : Orders m) (hm : Sessions m) (hr : m.pc t = some r) {C i n : ℕ}
    {p : CustomerAt} (hC : (after m t (program r x m.shared)).pc C = some (.customer p))
    (hn : p.token = some (i, n)) : (i, n) ∈ (program r x m.shared).shared.history.tokens := by
  have hkeep {i n : ℕ} (hold : (i, n) ∈ m.shared.history.tokens) :
      (i, n) ∈ (program r x m.shared).shared.history.tokens := by
    rcases point_cases r x m.shared with ⟨k', q, f, -, hprogram, -⟩ | ⟨p, rfl, horders⟩ |
      ⟨-, -, haside⟩
    · rw [hprogram]
      cases q
      case look =>
        simp only [serviceCustomer]
        split_ifs <;> exact hold
      case paid i =>
        simp only [serviceCustomer]
        split_ifs <;> exact hold
      all_goals exact hold
    · cases p
      case getToken j eatIn =>
        simp only [program, customer]
        split_ifs <;> exact List.mem_append_left _ hold
      all_goals first
        | exact horders.elim
        | exact hold
    · rwa [haside.same.tokens]
  rcases Machine.pc_computed hm.ok hC with ⟨rfl, heq⟩ | ⟨hne, hold⟩ | ⟨-, hfork⟩
  · by_cases hcustomer : ∃ p₀, r = .customer p₀
    · obtain ⟨p₀, rfl⟩ := hcustomer
      have hpc : (customer x m.shared p₀).pc = p := by
        injection heq.symm
      subst hpc
      have hheld := h.held C p₀ i n hr
      cases p₀
      case getToken j eatIn =>
        simp only [program, customer] at hn ⊢
        split_ifs at hn ⊢ <;> cases hn <;>
          exact List.mem_append_right _ (List.mem_singleton_self _)
      case chooseEatIn j =>
        simp only [customer] at hn
        split_ifs at hn <;> cases hn
      case prepare j eatIn n' =>
        simp only [customer] at hn
        split_ifs at hn <;> exact hkeep (hheld hn)
      case checkOrder j n' =>
        simp only [customer] at hn
        split_ifs at hn <;> exact hkeep (hheld hn)
      all_goals first
        | cases hn; done
        | exact hkeep (hheld hn)
    · have hnone := customerID_program (fun p₀ h => hcustomer ⟨p₀, h⟩) x m.shared
      rw [← heq] at hnone
      cases p <;> first | cases hn; done | cases hnone
  · exact hkeep (h.held C p i n hold hn)
  · have hnone := (fork_program hfork).2
    cases p <;> first | cases hn; done | cases hnone

/-- A call. -/
theorem after_call (h : Orders m) (hm : Sessions m) (hr : m.pc t = some r)
    (ht : m.status t = .ready) (x : ℕ) : Orders (after m t (program r x m.shared)) := by
  have hshared : (after m t (program r x m.shared)).shared = (program r x m.shared).shared :=
    Machine.shared_perform _ t _
  refine ⟨?_, ?_, ?_, ?_, ?_⟩
  · rw [hshared]
    exact h.books.program (h.knows hm hr ht) x
  · intro C p i hC hi hearly
    rw [hshared]
    exact h.early_after hm hr hC hi hearly
  · intro i S C k q p eatIn hsession
    rw [hshared]
    exact h.deals_after hm hr ht hsession
  · intro C i eatIn hC
    rw [hshared]
    exact h.getToken_after hm hr ht hC
  · intro C p i n hC hn
    rw [hshared]
    exact h.held_after hm hr hC hn

/-- A step in which no thread goes on. -/
theorem of_same {m' : Simulation} (h : Orders m) (hm : Sessions m) (hpc : m'.pc = m.pc)
    (hshared : m'.shared = m.shared) : Orders m' := by
  refine ⟨?_, ?_, ?_, ?_, ?_⟩
  · rw [hshared]
    exact h.books
  · rw [hpc, hshared]
    exact h.early
  · intro i S C k q p eatIn hsession
    rw [hshared]
    obtain ⟨rS, hrS, hserving⟩ := hsession.service_pc
    have hC := hsession.customer_pc
    rw [hpc] at hrS hC
    obtain ⟨C₀, p₀, e, hbefore⟩ := hm.served S rS k q i hrS hserving hsession.meeting.custID
    cases hbefore.eq_customer hm hC hsession.meeting.id
    cases hC.symm.trans hbefore.customer_pc
    exact h.deals i S C k q p e hbefore
  · unfold Served
    rw [hpc, hshared]
    exact h.getToken
  · rw [hpc, hshared]
    exact h.held

/-- **One step.** -/
theorem step {m' : Simulation} (h : Orders m) (hm : Sessions m)
    (hs : simulationStep m (t, x) = .ok m') : Orders m' := by
  rcases Machine.step_cases hs with ⟨r, hr, ht, rfl⟩ | ⟨r, l, hr, ht, rfl⟩ | ⟨r, c, l, hr, ht, rfl⟩
  · exact h.after_call hm hr ht x
  · exact h.of_same hm rfl rfl
  · exact h.of_same hm (Machine.pc_broadcast m t c l) (Machine.shared_broadcast m t c l)

end Orders

end

/-- **At the start** nobody has ordered. -/
theorem Orders.init (routines : List Routine) (target : ℕ) (v : TestVariables) :
    Orders (.init (.main routines) (initializeTest target v)) := by
  have hmain {u : ℕ} {p : CustomerAt} (hu : (Machine.init (.main routines)
      (initializeTest target v) : Simulation).pc u = some (.customer p)) : False := by
    cases Machine.pc_init hu
  refine ⟨⟨rfl, List.nodup_nil, ?_, ?_, List.nodup_nil, ?_, List.nodup_nil, ?_, ?_, ?_, ?_⟩,
    ?_, ?_, ?_, ?_⟩
  · exact fun _ _ h => absurd h List.not_mem_nil
  · exact fun _ _ h => absurd h List.not_mem_nil
  · exact fun _ _ h => absurd h List.not_mem_nil
  · exact fun _ _ _ h => absurd h List.not_mem_nil
  · exact fun _ _ _ h => absurd h List.not_mem_nil
  · exact fun _ _ h => absurd h List.not_mem_nil
  · exact fun _ h => absurd rfl h
  · intro C p i hC
    exact (hmain hC).elim
  · intro i S C k q p eatIn hsession
    exact (hmain hsession.customer_pc).elim
  · intro C i eatIn hC
    exact (hmain hC).elim
  · intro C p i n hC
    exact (hmain hC).elim

/-- **Each order reaches its own customer** in every run. -/
theorem orders_reach (routines : List Routine) (target : ℕ) (v : TestVariables)
    (events : List (ℕ × ℕ)) (m : Simulation)
    (h : exec simulationStep (.init (.main routines) (initializeTest target v)) events = .ok m) :
    OrdersReach m := by
  have hstep (m : Simulation) (tx : ℕ × ℕ) (m' : Simulation) (h : Sessions m ∧ Orders m)
      (hs : simulationStep m tx = .ok m') : Sessions m' ∧ Orders m' :=
    ⟨h.1.step hs, h.2.step h.1 hs⟩
  have hinit := And.intro (Sessions.init routines target v) (Orders.init routines target v)
  exact (exec_preserves hstep hinit h).2.reach

/-- An order taker serves two customers who eat out, one after the other. -/
def twoOrders : List (ℕ × ℕ) :=
  (List.replicate 4 0 ++ List.replicate 4 2 ++ List.replicate 4 3 ++ List.replicate 8 1 ++
    List.replicate 6 3 ++ List.replicate 3 1 ++ List.replicate 3 3 ++ List.replicate 7 1 ++
    List.replicate 4 3 ++ List.replicate 10 1 ++ List.replicate 6 2 ++ List.replicate 3 1 ++
    List.replicate 3 2 ++ List.replicate 7 1 ++ List.replicate 2 2).map fun t => (t, 0)

theorem orders_reach_two : ∃ m : Simulation,
    exec simulationStep (.init (.main [.orderTaker, .customer, .customer])
      (initializeTest 2 ⟨10, false, true, false, none⟩)) twoOrders = .ok m ∧
      m.shared.history.tokens = [(1, 0), (0, 1)] ∧ OrdersReach m := by
  have hrun : Ends simulationStep (.init (.main [.orderTaker, .customer, .customer])
      (initializeTest 2 ⟨10, false, true, false, none⟩)) twoOrders
      fun m => m.shared.history.tokens = [(1, 0), (0, 1)] := by
    decide +kernel
  obtain ⟨m, h, htokens⟩ := hrun
  exact ⟨m, h, htokens, orders_reach _ _ _ _ m h⟩

end Nachos.Restaurant
