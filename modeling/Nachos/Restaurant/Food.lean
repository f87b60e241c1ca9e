import Nachos.Restaurant.LockOrder

/-!
# Food

What the calls do with the food: the manager buys it, the cooks cook it, and whoever bags orders
takes it from the stacks. A ledger keeps what has been done.

* `foodStep_program`: what each call does with the food.
* `FoodStep.kitchen`: what it does with the inventory and the stacks.
* `FoodStep.hand`, `FoodStep.announces`: what it does with the order in hand.
-/

namespace Nachos.Restaurant

open Nachos.Lib Nachos.Threads

/-! ## The ledger -/

/-- What has been done with the food, which no thread reads. -/
structure Ledger where
  /-- The items that cooks have put on the stacks. -/
  cooked : List ℕ
  /-- The tokens and the items that have gone into their bags. -/
  bagged : List (ℕ × ℕ)
  /-- The tokens that have been announced, to the waiters or to the customers. -/
  announced : List ℕ

/-- The item that the call puts on its stack. -/
def cookedBy : Pc → List ℕ
  | .cook (.put i) => [i]
  | _ => []

/-- The token that the call announces: in `eatIn` to the waiters, in `togo` to the customers. -/
def BagAt.announced : BagAt → List ℕ
  | .eatIn i | .togo i => [i]
  | _ => []

def announcedBy (p : Pc) : List ℕ := p.bagging.elim [] BagAt.announced

/-- The item that has gone into a bag in the call: `bagOrder` goes on after the item. -/
def BagAt.bagged : BagAt → List (ℕ × ℕ)
  | .scan i (j + 1) => [(i, j)]
  | _ => []

def baggedBy (p : Pc) : List (ℕ × ℕ) := p.bagging.elim [] BagAt.bagged

/-- The ledger after the call `a` at `p`. -/
def Ledger.note (led : Ledger) (p : Pc) (a : Act Pc) : Ledger where
  cooked := led.cooked ++ cookedBy p
  bagged := led.bagged ++ baggedBy a.pc
  announced := led.announced ++ announcedBy p

/-! ## Calls that leave the food alone -/

/-- The order that `bagOrder` has in hand and has not announced. -/
def BagAt.hand : BagAt → Option ℕ
  | .scan i (_ + 1) | .eatIn i | .togo i => some i
  | _ => none

def Pc.hand (p : Pc) : Option ℕ := p.bagging.bind BagAt.hand

/-- A point without food. -/
def Pc.Idle : Pc → Prop
  | .cook (.fetch _) => False
  | .manager (.bag _ q) | .orderTaker (.bag _ q) => q.hand = none
  | _ => True

/-- The food and the orders stay as they are. -/
structure SameFood (s s' : Shared) : Prop where
  inventory : s'.inventoryCount = s.inventoryCount
  cookedFood : s'.cookedFoodStacks = s.cookedFoodStacks
  orders : s'.ordersNeedingBagging = s.ordersNeedingBagging
  entered : s'.history.entered = s.history.entered

/-- Who is forked has no food. -/
def ForksIdle : Op LockName CVName Pc → Prop
  | .fork q => q.Idle
  | _ => True

/-- A call that leaves the food alone. -/
structure NoFood (s : Shared) (p : Pc) (a : Act Pc) : Prop where
  same : SameFood s a.shared
  cooked : cookedBy p = []
  pc : a.pc.Idle
  fork : ForksIdle a.op

theorem Pc.Idle.hand {p : Pc} (h : p.Idle) : p.hand = none := by
  cases p with
  | manager p => cases p <;> first | exact h | rfl
  | orderTaker p => cases p <;> first | exact h | rfl
  | _ => rfl

theorem Pc.Idle.not_fetch {p : Pc} (h : p.Idle) (i : ℕ) : p ≠ .cook (.fetch i) := by
  rintro rfl
  exact h

theorem bagged_of_hand {p : Pc} (h : p.hand = none) : baggedBy p = [] := by
  unfold Pc.hand at h
  unfold baggedBy
  generalize p.bagging = q at h ⊢
  cases q with
  | none => rfl
  | some q =>
    cases q
    case scan i j => cases j <;> first | rfl | cases h
    all_goals rfl

theorem announced_of_hand {p : Pc} (h : p.hand = none) : announcedBy p = [] := by
  unfold Pc.hand at h
  unfold announcedBy
  generalize p.bagging = q at h ⊢
  cases q with
  | none => rfl
  | some q => cases q <;> first | rfl | cases h

/-- The points at which a thread handles food. -/
def Pc.Handles : Pc → Prop
  | .manager (.bag _ _) | .orderTaker (.bag _ _) => True
  | .manager (.service _ _ (.add _ _)) | .orderTaker (.service _ (.add _ _)) => True
  | .manager (.inventory _ _ _) | .cook (.look _) | .cook (.cook _) => True
  | .cook (.fetch _) | .cook (.put _) => True
  | _ => False

/-- Where a routine without food is in another one. -/
theorem NoFood.of_map {β : Type} {s : Shared} {p : Pc} {a : Act β} {f : β → Pc}
    (hsame : SameFood s a.shared) (hp : cookedBy p = []) (hf : ∀ q, (f q).Idle)
    (hfork : ForksIdle (a.op.map f)) : NoFood s p (a.map f) :=
  ⟨hsame, hp, hf _, hfork⟩

theorem noFood_service {s : Shared} {p : Pc} {k : ℕ} {q : ServiceAt} {f : Option ServiceAt → Pc}
    (hq : ∀ i n, q ≠ .add i n) (hp : cookedBy p = []) (hf : ∀ q, (f q).Idle) :
    NoFood s p ((serviceCustomer k s q).map f) := by
  cases q
  case add i n => exact absurd rfl (hq i n)
  all_goals
    simp only [serviceCustomer]
    try split_ifs
  all_goals exact .of_map ⟨rfl, rfl, rfl, rfl⟩ hp hf trivial

theorem noFood_cookManager {s : Shared} {p : Pc} {i : ℕ} {q : ManageCookAt}
    {go : Option ManageCookAt → Pc} (hp : cookedBy p = []) (hgo : ∀ q, (go q).Idle) :
    NoFood s p (manageCook go i s q) := by
  cases q
  all_goals
    simp only [manageCook]
    try split_ifs
  all_goals exact ⟨⟨rfl, rfl, rfl, rfl⟩, hp, hgo _, trivial⟩

theorem noFood_manager (s : Shared) {p : ManagerAt} (h : ¬ (Pc.manager p).Handles) :
    NoFood s (.manager p) (manager s p) := by
  cases p
  case bag id q => exact absurd trivial h
  case inventory id i q => exact absurd trivial h
  case service id rounds q =>
    refine noFood_service ?_ rfl ?_
    · rintro i n rfl
      exact h trivial
    · rintro (- | q)
      · cases rounds <;> first | exact rfl | exact trivial
      · exact trivial
  case cook id i q =>
    rw [manager]
    apply noFood_cookManager rfl
    rintro (- | q)
    · simp only
      split_ifs <;> exact trivial
    · exact trivial
  case line id q =>
    apply NoFood.of_map
    · cases q
      all_goals
        simp only [checkLineToEnterRest]
        try split_ifs
      all_goals exact ⟨rfl, rfl, rfl, rfl⟩
    · rfl
    · rintro (- | q) <;> exact trivial
    · cases q
      all_goals
        simp only [checkLineToEnterRest]
        try split_ifs
      all_goals exact trivial
  case exit id q =>
    apply NoFood.of_map
    · cases q <;> exact ⟨rfl, rfl, rfl, rfl⟩
    · rfl
    · rintro (q | b) <;> exact trivial
    · cases q <;> exact trivial
  case exited id b => cases b <;> exact ⟨⟨rfl, rfl, rfl, rfl⟩, rfl, trivial, trivial⟩
  all_goals
    simp only [manager]
    try split_ifs
  all_goals
    refine ⟨⟨rfl, rfl, rfl, rfl⟩, rfl, ?_, trivial⟩
    first
      | exact trivial
      | exact rfl

theorem noFood_orderTaker (s : Shared) {p : OrderTakerAt} (h : ¬ (Pc.orderTaker p).Handles) :
    NoFood s (.orderTaker p) ((orderTaker s p).map .orderTaker) := by
  cases p
  case bag id q => exact absurd trivial h
  case service id q =>
    rw [orderTaker, Action.map_map]
    refine noFood_service ?_ rfl ?_
    · rintro i n rfl
      exact h trivial
    · rintro (- | q)
      · exact rfl
      · exact trivial
  case exit id q =>
    rw [orderTaker, Action.map_map]
    apply NoFood.of_map
    · cases q <;> exact ⟨rfl, rfl, rfl, rfl⟩
    · rfl
    · rintro (q | b) <;> exact trivial
    · cases q <;> exact trivial
  case exited id b => cases b <;> exact ⟨⟨rfl, rfl, rfl, rfl⟩, rfl, trivial, trivial⟩
  all_goals exact ⟨⟨rfl, rfl, rfl, rfl⟩, rfl, trivial, trivial⟩

theorem noFood_cook (s : Shared) {p : CookAt} (h : ¬ (Pc.cook p).Handles) :
    NoFood s (.cook p) ((cook s p).map .cook) := by
  cases p
  case exit id q =>
    rw [cook, Action.map_map]
    apply NoFood.of_map
    · cases q <;> exact ⟨rfl, rfl, rfl, rfl⟩
    · rfl
    · rintro (q | (- | -)) <;> exact trivial
    · cases q <;> exact trivial
  all_goals first
    | exact absurd trivial h
    | exact ⟨⟨rfl, rfl, rfl, rfl⟩, rfl, trivial, trivial⟩

/-- **Every other call** leaves the food alone. -/
theorem noFood_program {p : Pc} (h : ¬ p.Handles) (x : ℕ) (s : Shared) :
    NoFood s p (program p x s) := by
  cases p with
  | main routines =>
    cases routines with
    | nil => exact ⟨⟨rfl, rfl, rfl, rfl⟩, rfl, trivial, trivial⟩
    | cons routine rest =>
      refine ⟨⟨rfl, rfl, rfl, rfl⟩, rfl, trivial, ?_⟩
      cases routine <;> exact trivial
  | customer p =>
    cases p
    all_goals
      simp only [program, customer]
      try split_ifs
    all_goals exact ⟨⟨rfl, rfl, rfl, rfl⟩, rfl, trivial, trivial⟩
  | manager p => exact noFood_manager s h
  | orderTaker p => exact noFood_orderTaker s h
  | waiter p =>
    cases p
    all_goals
      simp only [program, waiter]
      try split_ifs
    all_goals exact ⟨⟨rfl, rfl, rfl, rfl⟩, rfl, trivial, trivial⟩
  | cook p => exact noFood_cook s h

/-! ## Calls that handle food -/

/-- **What a call does with the food.** -/
inductive FoodStep (s : Shared) (p : Pc) (a : Act Pc) : Prop
  | none (h : NoFood s p a)
  /-- The manager buys five items. -/
  | supply (i : ℕ) (money : ℤ) (hp : cookedBy p = []) (hpc : a.pc.Idle) (hop : a.op = .yield)
      (hshared : a.shared = { s with
        moneyRest := money
        inventoryCount := Function.update s.inventoryCount i (s.inventoryCount i + 5) })
  /-- A cook has seen that there is something to cook. -/
  | look (i : ℕ) (hp : cookedBy p = []) (hthere : 0 < s.inventoryCount i)
      (ha : a = ⟨s, .yield, .cook (.fetch i)⟩)
  | fetch (i : ℕ) (hp : p = .cook (.fetch i)) (hpc : a.pc.Idle)
      (hop : a.op = .release (.inventory i))
      (hshared : a.shared = { s with
        inventoryCount := Function.update s.inventoryCount i (s.inventoryCount i - 1) })
  | put (i : ℕ) (hp : p = .cook (.put i)) (hpc : a.pc.Idle) (hop : a.op = .release (.inventory i))
      (hshared : a.shared = { s with
        cookedFoodStacks := Function.update s.cookedFoodStacks i (s.cookedFoodStacks i + 1) })
  /-- The item `j` goes into the bag of the order `n`. -/
  | item (n j : ℕ) (hp : cookedBy p = [] ∧ announcedBy p = [])
      (hj : 1 ≤ j) (hneeded : (s.ordersNeedingBagging n).testBit j)
      (hcooked : 0 < s.cookedFoodStacks j)
      (hpc : a.pc.bagging = some (.scan n (j + 1))) (hop : a.op = .yield)
      (hshared : a.shared = bagItem s n j)
  /-- The order `n` needs no more bagging. -/
  | whole (n : ℕ) (hp : cookedBy p = [] ∧ announcedBy p = [])
      (hopen : 0 < s.ordersNeedingBagging n ∨ p.hand = some n)
      (hbagged : s.ordersNeedingBagging n ≤ 1)
      (hpc : a.pc.bagging = some (.eatIn n) ∨ a.pc.bagging = some (.togo n))
      (hop : a.op = .acquire .baggedOrders ∨ a.op = .acquire .orderReady)
      (hshared : a.shared = bagWhole s n)
  /-- An order taker enters the order `n`. -/
  | enter (k i n : ℕ) (hserving : p.serving = some (k, .add i n)) (hpc : a.pc.Idle)
      (hop : a.op = .yield)
      (hshared : a.shared = (serviceCustomer k s (.add i n)).shared)

/-- Where `bagOrder` goes on in a routine. -/
structure BagsOn (f : Option BagAt → Pc) : Prop where
  goesOn : ∀ q, (f (some q)).bagging = some q
  returns : (f none).Idle

theorem BagsOn.idle {f : Option BagAt → Pc} (hf : BagsOn f) {q : BagAt} (hq : q.hand = none) :
    (f (some q)).Idle := by
  have hbagging := hf.goesOn q
  cases hp : f (some q) <;> rw [hp] at hbagging
  case manager p => cases p <;> cases hbagging; exact hq
  case orderTaker p => cases p <;> cases hbagging; exact hq
  all_goals cases hbagging

/-- **`bagOrder`** takes an item, completes an order, or leaves the food alone. -/
theorem foodStep_bag {s : Shared} {p : Pc} {isManager : Bool} {q : BagAt} {f : Option BagAt → Pc}
    (hp : p.bagging = some q) (hcooked : cookedBy p = []) (hf : BagsOn f) :
    FoodStep s p ((bagOrder isManager s q).map f) := by
  cases q
  case scan i j =>
    have hscan := bagOrder_scan isManager s i j
    generalize bagOrder isManager s (.scan i j) = a at hscan
    have hannounced : announcedBy p = [] := by
      rw [announcedBy, hp]
      rfl
    have hhand : p.hand = (BagAt.scan i j).current := by
      rw [Pc.hand, hp]
      cases j <;> rfl
    cases hscan with
    | done => exact .none ⟨⟨rfl, rfl, rfl, rfl⟩, hcooked, hf.returns, trivial⟩
    | item i' j' hj hneeded hthere =>
      exact .item i' j' ⟨hcooked, hannounced⟩ hj hneeded hthere (hf.goesOn _) rfl rfl
    | eatIn i' hopen hbagged =>
      rw [← hhand] at hopen
      exact .whole i' ⟨hcooked, hannounced⟩ hopen hbagged (Or.inl (hf.goesOn _)) (Or.inl rfl) rfl
    | togo i' hopen hbagged =>
      rw [← hhand] at hopen
      exact .whole i' ⟨hcooked, hannounced⟩ hopen hbagged (Or.inr (hf.goesOn _)) (Or.inr rfl) rfl
  all_goals
    simp only [bagOrder]
    try split_ifs
  all_goals exact .none ⟨⟨rfl, rfl, rfl, rfl⟩, hcooked, hf.idle rfl, trivial⟩

theorem foodStep_service {s : Shared} {p : Pc} {k i n : ℕ} {f : Option ServiceAt → Pc}
    (hp : p.serving = some (k, .add i n)) (hf : ∀ q, (f (some q)).Idle) :
    FoodStep s p ((serviceCustomer k s (.add i n)).map f) :=
  .enter k i n hp (hf _) rfl rfl

theorem foodStep_inventory {s : Shared} {p : Pc} {i : ℕ} {q : InventoryAt}
    {f : Option InventoryAt → Pc} (hp : cookedBy p = []) (hf : ∀ q, (f q).Idle) :
    FoodStep s p ((orderInventoryFood i s q).map f) := by
  cases q
  case refill =>
    simp only [orderInventoryFood]
    split_ifs
    · exact .none (.of_map ⟨rfl, rfl, rfl, rfl⟩ hp hf trivial)
    · exact .supply i _ hp (hf _) rfl rfl
  case buy => exact .supply i _ hp (hf _) rfl rfl
  all_goals
    simp only [orderInventoryFood]
    try split_ifs
  all_goals exact .none (.of_map ⟨rfl, rfl, rfl, rfl⟩ hp hf trivial)

theorem foodStep_cook (s : Shared) {p : CookAt} (h : (Pc.cook p).Handles) :
    FoodStep s (.cook p) ((cook s p).map .cook) := by
  cases p
  case look i =>
    simp only [cook]
    split_ifs with hbreak hthere
    · exact .none ⟨⟨rfl, rfl, rfl, rfl⟩, rfl, trivial, trivial⟩
    · exact .look i rfl hthere rfl
    · exact .none ⟨⟨rfl, rfl, rfl, rfl⟩, rfl, trivial, trivial⟩
  case cook i =>
    simp only [cook]
    split_ifs with hthere
    · exact .look i rfl hthere rfl
    · exact .none ⟨⟨rfl, rfl, rfl, rfl⟩, rfl, trivial, trivial⟩
  case fetch i => exact .fetch i rfl trivial rfl rfl
  case put i => exact .put i rfl trivial rfl rfl
  all_goals exact h.elim

/-- **Every call.** -/
theorem foodStep_program (p : Pc) (x : ℕ) (s : Shared) : FoodStep s p (program p x s) := by
  by_cases h : p.Handles
  · unfold Pc.Handles at h
    split at h
    next id q =>
      refine foodStep_bag rfl rfl ⟨fun _ => rfl, ?_⟩
      exact trivial
    next id q =>
      rw [program, orderTaker, Action.map_map]
      refine foodStep_bag rfl rfl ⟨fun _ => rfl, ?_⟩
      exact trivial
    next => exact foodStep_service rfl fun _ => trivial
    next =>
      rw [program, orderTaker, Action.map_map]
      exact foodStep_service rfl fun _ => trivial
    next id i q =>
      apply foodStep_inventory rfl
      rintro (- | q)
      · simp only
        split_ifs <;> exact trivial
      · exact trivial
    next => exact foodStep_cook s trivial
    next => exact foodStep_cook s trivial
    next => exact foodStep_cook s trivial
    next => exact foodStep_cook s trivial
    next => exact h.elim
  · exact .none (noFood_program h x s)

/-! ## The inventory and the stacks -/

/-- **What a call does** with the inventory and the stacks. -/
structure KitchenStep (s : Shared) (p : Pc) (a : Act Pc) : Prop where
  inventory : ∀ i, s.inventoryCount i ≤ a.shared.inventoryCount i ∨
    p = .cook (.fetch i) ∧ a.shared.inventoryCount i = s.inventoryCount i - 1
  fetch : ∀ i, a.pc = .cook (.fetch i) → 0 < a.shared.inventoryCount i ∧ a.op = .yield
  cookedFood : ∀ j, a.shared.cookedFoodStacks j =
    s.cookedFoodStacks j + (cookedBy p).count j - ((baggedBy a.pc).map Prod.snd).count j
  nonneg : ∀ j, 0 ≤ s.cookedFoodStacks j → 0 ≤ a.shared.cookedFoodStacks j
  fork : ∀ q i, a.op = .fork q → q ≠ .cook (.fetch i)

/-- The stacks stay as they are. -/
theorem KitchenStep.of_same {s : Shared} {p : Pc} {a : Act Pc}
    (hinventory : ∀ i, s.inventoryCount i ≤ a.shared.inventoryCount i ∨
      p = .cook (.fetch i) ∧ a.shared.inventoryCount i = s.inventoryCount i - 1)
    (hsame : a.shared.cookedFoodStacks = s.cookedFoodStacks) (hp : cookedBy p = [])
    (hpc : a.pc.Idle) (hfork : ForksIdle a.op) : KitchenStep s p a := by
  refine ⟨hinventory, fun i hi => absurd hi (hpc.not_fetch i), ?_, ?_, ?_⟩
  · intro j
    rw [hsame, hp, bagged_of_hand hpc.hand]
    simp
  · intro j hj
    rwa [hsame]
  · intro q i hq
    rw [hq] at hfork
    exact Pc.Idle.not_fetch hfork i

theorem FoodStep.kitchen {s : Shared} {p : Pc} {a : Act Pc} (h : FoodStep s p a) :
    KitchenStep s p a := by
  cases h with
  | none h =>
    have hinventory (i : ℕ) : s.inventoryCount i ≤ a.shared.inventoryCount i :=
      (congrFun h.same.inventory i).ge
    exact .of_same (fun i => Or.inl (hinventory i)) h.same.cookedFood h.cooked h.pc h.fork
  | supply i money hp hpc hop hshared =>
    rw [show a = ⟨a.shared, a.op, a.pc⟩ from rfl, hshared, hop]
    refine .of_same ?_ rfl hp hpc trivial
    intro i'
    left
    show s.inventoryCount i' ≤ Function.update s.inventoryCount i _ i'
    by_cases hi : i' = i
    · subst hi
      rw [Function.update_self]
      omega
    · rw [Function.update_of_ne hi]
  | look i hp hthere ha =>
    subst ha
    refine ⟨fun i => Or.inl (le_refl _), ?_, ?_, fun j hj => hj, nofun⟩
    · intro i' hi
      cases hi
      exact ⟨hthere, rfl⟩
    · intro j
      rw [hp]
      simp [baggedBy, Pc.bagging]
  | fetch i hp hpc hop hshared =>
    subst hp
    rw [show a = ⟨a.shared, a.op, a.pc⟩ from rfl, hshared, hop]
    refine .of_same ?_ rfl rfl hpc trivial
    intro i'
    show s.inventoryCount i' ≤ Function.update s.inventoryCount i _ i' ∨
      _ ∧ Function.update s.inventoryCount i _ i' = _
    by_cases hi : i' = i
    · subst hi
      right
      rw [Function.update_self]
      exact ⟨rfl, rfl⟩
    · left
      rw [Function.update_of_ne hi]
  | put i hp hpc hop hshared =>
    subst hp
    have hcount (j : ℕ) : a.shared.cookedFoodStacks j =
        s.cookedFoodStacks j + ([i].count j : ℤ) := by
      rw [hshared]
      show Function.update s.cookedFoodStacks i _ j = _
      by_cases hj : j = i
      · subst hj
        rw [Function.update_self]
        simp
      · rw [Function.update_of_ne hj]
        simp [Ne.symm hj]
    refine ⟨?_, fun i hi => absurd hi (hpc.not_fetch i), ?_, ?_, ?_⟩
    · intro i'
      rw [hshared]
      exact Or.inl (le_refl _)
    · intro j
      rw [hcount, bagged_of_hand hpc.hand, cookedBy]
      simp
    · intro j hj
      rw [hcount]
      omega
    · intro q i' hq
      rw [hop] at hq
      cases hq
  | item n j hp hj hneeded hcooked hpc hop hshared =>
    have hcount (j' : ℕ) : a.shared.cookedFoodStacks j' =
        s.cookedFoodStacks j' - ([j].count j' : ℤ) := by
      rw [hshared]
      show Function.update s.cookedFoodStacks j _ j' = _
      by_cases hj' : j' = j
      · subst hj'
        rw [Function.update_self]
        simp
      · rw [Function.update_of_ne hj']
        simp [Ne.symm hj']
    have hfetch (i : ℕ) : a.pc ≠ .cook (.fetch i) := by
      intro hi
      rw [hi] at hpc
      cases hpc
    refine ⟨?_, fun i hi => absurd hi (hfetch i), ?_, ?_, ?_⟩
    · intro i
      rw [hshared]
      exact Or.inl (le_refl _)
    · intro j'
      rw [hcount, hp.1, baggedBy, hpc]
      simp [BagAt.bagged]
    · intro j' hj'
      rw [hcount]
      by_cases hjj : j' = j
      · subst hjj
        simp
        omega
      · simp [Ne.symm hjj, hj']
    · intro q i hq
      rw [hop] at hq
      cases hq
  | whole n hp hopen hbagged hpc hop hshared =>
    have hfetch (i : ℕ) : a.pc ≠ .cook (.fetch i) := by
      intro hi
      rw [hi] at hpc
      rcases hpc with hpc | hpc <;> cases hpc
    have hnone : baggedBy a.pc = [] := by
      unfold baggedBy
      rcases hpc with hpc | hpc <;> rw [hpc] <;> rfl
    refine ⟨?_, fun i hi => absurd hi (hfetch i), ?_, ?_, ?_⟩
    · intro i
      rw [hshared]
      exact Or.inl (le_refl _)
    · intro j
      rw [hshared, hp.1, hnone]
      simp [bagWhole]
    · intro j hj
      rwa [hshared]
    · intro q i hq
      rcases hop with hop | hop <;> rw [hop] at hq <;> cases hq
  | enter k i n hserving hpc hop hshared =>
    rw [show a = ⟨a.shared, a.op, a.pc⟩ from rfl, hshared, hop]
    have hp : cookedBy p = [] := by
      cases p <;> first | rfl | cases hserving
    exact .of_same (fun i => Or.inl (le_refl _)) rfl hp hpc trivial

/-! ## Orders in hand -/

/-- Who announces an order has it in hand. -/
theorem hand_of_announced {p : Pc} {n : ℕ} (h : n ∈ announcedBy p) : p.hand = some n := by
  unfold announcedBy at h
  unfold Pc.hand
  generalize p.bagging = q at h ⊢
  cases q with
  | none => cases h
  | some q =>
    cases q
    case eatIn i => exact congrArg some (List.mem_singleton.mp h).symm
    case togo i => exact congrArg some (List.mem_singleton.mp h).symm
    all_goals cases h

/-- Who has an order in hand has the lock of the orders. -/
theorem mayHold_of_hand {s : Shared} {p : Pc} {n : ℕ} (h : p.hand = some n) :
    mayHold s p .ordersNeedingBagging := by
  have hq {q : BagAt} (hq : q.hand = some n) : q.MayHold .ordersNeedingBagging := by
    cases q
    case scan i j => exact rfl
    case eatIn i => exact Or.inl rfl
    case togo i => exact Or.inl rfl
    all_goals cases hq
  cases p with
  | manager p =>
    cases p
    case bag id q => exact hq h
    all_goals cases h
  | orderTaker p =>
    cases p
    case bag id q => exact hq h
    all_goals cases h
  | _ => cases h

namespace FoodStep

variable {s : Shared} {p : Pc} {a : Act Pc} {n : ℕ}

/-- Who has an order in hand had it before, or has found it. -/
theorem hand (h : FoodStep s p a) (hn : a.pc.hand = some n) :
    announcedBy p = [] ∧ (s.ordersNeedingBagging n ≠ 0 ∨ p.hand = some n) ∧
      a.op ≠ .acquire .ordersNeedingBagging ∧ ∀ c, a.op ≠ .wait c .ordersNeedingBagging := by
  have hidle (hpc : a.pc.Idle) : False := by
    rw [hpc.hand] at hn
    cases hn
  cases h with
  | none h => exact (hidle h.pc).elim
  | supply i money hp hpc => exact (hidle hpc).elim
  | look i hp hthere ha =>
    subst ha
    cases hn
  | fetch i hp hpc => exact (hidle hpc).elim
  | put i hp hpc => exact (hidle hpc).elim
  | item n' j hp hj hneeded hcooked hpc hop =>
    rw [Pc.hand, hpc] at hn
    cases hn
    refine ⟨hp.2, Or.inl ?_, by rw [hop]; nofun, by rw [hop]; nofun⟩
    intro hzero
    rw [hzero, Nat.zero_testBit] at hneeded
    cases hneeded
  | whole n' hp hopen hbagged hpc hop =>
    have hn' : n' = n := by
      rw [Pc.hand] at hn
      rcases hpc with hpc | hpc <;> (rw [hpc] at hn; exact Option.some_injective _ hn)
    subst hn'
    refine ⟨hp.2, hopen.imp_left Nat.ne_of_gt, ?_, ?_⟩
    · rcases hop with hop | hop <;> (rw [hop]; nofun)
    · rcases hop with hop | hop <;> (rw [hop]; nofun)
  | enter k i n' hserving hpc => exact (hidle hpc).elim

/-- Who is forked has no order in hand. -/
theorem forks (h : FoodStep s p a) {q : Pc} (hq : a.op = .fork q) : q.hand = .none := by
  cases h with
  | none h =>
    have hfork := h.fork
    rw [hq] at hfork
    exact Pc.Idle.hand hfork
  | look i hp hthere ha =>
    subst ha
    cases hq
  | whole n' hp hopen hbagged hpc hop => rcases hop with hop | hop <;> cases hop.symm.trans hq
  | supply i money hp hpc hop => cases hop.symm.trans hq
  | fetch i hp hpc hop => cases hop.symm.trans hq
  | put i hp hpc hop => cases hop.symm.trans hq
  | item n' j hp hj hneeded hcooked hpc hop => cases hop.symm.trans hq
  | enter k i n' hserving hpc hop => cases hop.symm.trans hq

/-- An order that is about to be announced needs no more bagging. -/
theorem announces (h : FoodStep s p a) (hn : n ∈ announcedBy a.pc) :
    a.shared.ordersNeedingBagging n = 0 := by
  have hidle (hpc : a.pc.Idle) : False := by
    rw [announced_of_hand hpc.hand] at hn
    cases hn
  cases h with
  | none h => exact (hidle h.pc).elim
  | supply i money hp hpc => exact (hidle hpc).elim
  | look i hp hthere ha =>
    subst ha
    cases hn
  | fetch i hp hpc => exact (hidle hpc).elim
  | put i hp hpc => exact (hidle hpc).elim
  | item n' j hp hj hneeded hcooked hpc hop =>
    rw [announcedBy, hpc] at hn
    cases hn
  | whole n' hp hopen hbagged hpc hop hshared =>
    have hn' : n = n' := by
      rw [announcedBy] at hn
      rcases hpc with hpc | hpc <;> (rw [hpc] at hn; exact List.mem_singleton.mp hn)
    subst hn'
    rw [hshared]
    exact Function.update_self ..
  | enter k i n' hserving hpc => exact (hidle hpc).elim

end FoodStep

end Nachos.Restaurant
