import Nachos.Lib.Run
import Nachos.Restaurant.UserPrograms

/-!
# The user programs against the threaded routines

Both run with the same schedule: before each segment, the other threads make the same writes to the
variables of both. The user programs forgot `GetMV` or `SetMV` in four places.

* `networked_like_threaded_iff`: exactly when they leave the shared values as the threaded routines
  leave their variables.
-/

namespace Nachos.Restaurant

open Nachos.Lib

/-! ## Programs that stand for each other -/

/-- Each global is the handle of the variable of its name. -/
structure Stands (h : Variable → ℤ) (p : Process) (m : Memory) : Prop where
  globals : p.globals = h
  values : Relocated h p.values m

namespace Stands

variable {h : Variable → ℤ} {p : Process} {m : Memory}

theorem getMV (hs : Stands h p m) (v : Variable) : p.getMV v = m v := by
  rw [Process.getMV, hs.globals]
  exact hs.values v

theorem setMV (hs : Stands h p m) (hh : Function.Injective h) (v : Variable) (x : ℤ) :
    Stands h (p.setMV v x) (m.set v x) := by
  refine ⟨hs.globals, ?_⟩
  show Relocated h (Function.update p.values (p.globals v) x) _
  rw [hs.globals]
  exact hs.values.update hh v x

end Stands

/-- The segments do the same. -/
structure SameSegment {π : Type} (h : Variable → ℤ) (a : Segment Process π)
    (b : Segment Memory π) : Prop where
  stands : Stands h a.state b.state
  call : a.call = b.call
  next : a.next = b.next

theorem SameSegment.map {π ρ : Type} {h : Variable → ℤ} {a : Segment Process π}
    {b : Segment Memory π} (hsame : SameSegment h a b) (f : π → ρ) :
    SameSegment h (a.map f) (b.map f) :=
  ⟨hsame.stands, hsame.call, congrArg (Option.map f) hsame.next⟩

/-! ## Segments -/

section

variable {h : Variable → ℤ} {p : Process} {m : Memory}

theorem waitInLineToEnterRest_same (hh : Function.Injective h) (hs : Stands h p m) (id : ℤ)
    (q : EnterLineAt) :
    SameSegment h (Networked.waitInLineToEnterRest p id q)
      (Threaded.waitInLineToEnterRest m id q) := by
  cases q with
  | enter => exact ⟨hs, rfl, rfl⟩
  | join =>
    simp only [Networked.waitInLineToEnterRest, Threaded.waitInLineToEnterRest, hs.getMV]
    have hline := hs.setMV hh (.lineToEnterRest (m .countLineToEnterRestLength)) id
    simp only [hline.getMV]
    exact ⟨hline.setMV hh _ _, rfl, rfl⟩
  | leave =>
    simp only [Networked.waitInLineToEnterRest, Threaded.waitInLineToEnterRest, hs.getMV]
    split_ifs
    · exact ⟨hs.setMV hh _ _, rfl, rfl⟩
    · exact ⟨hs, rfl, rfl⟩

theorem serviceCustomer_same (hh : Function.Injective h) (hs : Stands h p m) (id : ℤ)
    (q : ServingAt) :
    SameSegment h (Networked.serviceCustomer p id q) (Threaded.serviceCustomer m id q) := by
  cases q with
  | look =>
    simp only [Networked.serviceCustomer, Threaded.serviceCustomer, hs.getMV]
    split_ifs
    · exact ⟨hs, rfl, rfl⟩
    · exact ⟨(hs.setMV hh _ _).setMV hh _ _, rfl, rfl⟩
  | paid custID =>
    simp only [Networked.serviceCustomer, Threaded.serviceCustomer, hs.getMV]
    exact ⟨((hs.setMV hh _ _).setMV hh _ _).setMV hh _ _, rfl, rfl⟩
  | add token =>
    simp only [Networked.serviceCustomer, Threaded.serviceCustomer, hs.getMV]
    exact ⟨hs.setMV hh _ _, rfl, rfl⟩
  | _ => exact ⟨hs, rfl, rfl⟩

theorem bagItems_stands (hh : Function.Injective h) (hs : Stands h p m) (i j rest : ℕ) :
    Stands h (Networked.bagItems i j rest p) (Threaded.bagItems i j rest m) := by
  induction rest generalizing j p m with
  | zero => exact hs
  | succ rest ih =>
    simp only [Networked.bagItems, Threaded.bagItems, hs.getMV]
    split_ifs
    · have horder := hs.setMV hh (.ordersNeedingBagging i)
        (clearItem (m (.ordersNeedingBagging i)) j)
      simp only [horder.getMV]
      exact ih (horder.setMV hh _ _) (j + 1)
    · exact ih hs (j + 1)

theorem bagOrders_same (hh : Function.Injective h) (hs : Stands h p m) (i rest : ℕ) :
    SameSegment h (Networked.bagOrders i rest p) (Threaded.bagOrders i rest m) := by
  induction rest generalizing i p m with
  | zero => exact ⟨hs, rfl, rfl⟩
  | succ rest ih =>
    have hitems := bagItems_stands hh hs i 1 (numInventoryItemTypes - 1)
    have hcomplete := hitems.setMV hh (.ordersNeedingBagging i) 0
    simp only [Networked.bagOrders, Threaded.bagOrders, hs.getMV, hitems.getMV, hcomplete.getMV]
    split_ifs
    · exact ⟨hcomplete, rfl, rfl⟩
    · exact ⟨hcomplete, rfl, rfl⟩
    · exact ih hitems (i + 1)
    · exact ih hs (i + 1)

/-- **What the user programs need** to do as the threaded routines: the handle that stands for an
    index stands for the same element, or what is written is there already. Where they assign to a
    handle they never do. -/
def RightAt (h : Variable → ℤ) (m : Memory) : RoutineAt → Prop
  | .waitInLineToOrderFood id .join =>
    h .countLineToOrderFoodLength = m .countLineToOrderFoodLength ∨
      m (.lineToOrderFood (h .countLineToOrderFoodLength)) = id ∧
        m (.lineToOrderFood (m .countLineToOrderFoodLength)) = id
  | .bagOrder _ (.eatIn i) =>
    h .countNumOrdersBaggedAndReady = m .countNumOrdersBaggedAndReady ∨
      m (.baggedOrders (h .countNumOrdersBaggedAndReady)) = i ∧
        m (.baggedOrders (m .countNumOrdersBaggedAndReady)) = i
  | .orderInventoryFood (.refill i) => m .moneyRest < m (.inventoryCost i) * 5
  | .orderInventoryFood (.bank _) => False
  | .releaseTable .free => False
  | _ => True

/-- **An element is appended** through a handle in the place of the length. -/
theorem append_iff (hh : Function.Injective h) (hs : Stands h p m) {a : ℤ → Variable}
    {c : Variable} (ha : ∀ i, a i ≠ c) (x : ℤ) :
    let p' := p.setMV (a (p.globals c)) x
    let m' := m.set (a (m c)) x
    Relocated h (p'.setMV c (p'.getMV c + 1)).values (m'.set c (m' c + 1)) ↔
      a (h c) = a (m c) ∨
        m (a (h c)) = x ∧ m (a (m c)) = x := by
  intro p' m'
  have hp' : p'.values = Function.update p.values (h (a (h c))) x := by
    show Function.update p.values (p.globals (a (p.globals c))) x = _
    rw [hs.globals]
  have hm : m' c = m c := Function.update_of_ne (Ne.symm (ha _)) _ _
  have hp : p'.values (h c) = m' c := by
    rw [hp', Function.update_of_ne (hh.ne (Ne.symm (ha _))), hm]
    exact hs.values c
  have hget : p'.getMV c = m' c := by
    rw [← hp]
    show p'.values (p.globals c) = _
    rw [hs.globals]
  have hset : (p'.setMV c (p'.getMV c + 1)).values =
      Function.update p'.values (h c) (m' c + 1) := by
    rw [hget]
    show Function.update p'.values (p.globals c) _ = _
    rw [hs.globals]
  rw [hset, Memory.set, Relocated.update_both_iff hh _ hp, hp']
  exact hs.values.update_iff hh

theorem waitInLineToOrderFood_same (hh : Function.Injective h) (hs : Stands h p m) {id : ℤ}
    {q : OrderLineAt} (hright : RightAt h m (.waitInLineToOrderFood id q)) :
    SameSegment h (Networked.waitInLineToOrderFood p id q)
      (Threaded.waitInLineToOrderFood m id q) := by
  cases q with
  | join =>
    refine ⟨⟨hs.globals, ?_⟩, rfl, rfl⟩
    apply (append_iff hh hs (a := .lineToOrderFood) (c := .countLineToOrderFoodLength)
      (fun _ => nofun) id).mpr
    exact hright.imp_left (congrArg Variable.lineToOrderFood)
  | called =>
    simp only [Networked.waitInLineToOrderFood, Threaded.waitInLineToOrderFood, hs.getMV]
    exact ⟨hs, rfl, rfl⟩
  | _ => exact ⟨hs, rfl, rfl⟩

theorem bagOrder_same (hh : Function.Injective h) (hs : Stands h p m) {isManager : Bool}
    {q : BaggingAt} (hright : RightAt h m (.bagOrder isManager q)) :
    SameSegment h (Networked.bagOrder p isManager q) (Threaded.bagOrder m isManager q) := by
  cases q with
  | scan i => exact bagOrders_same hh hs i _
  | eatIn i =>
    have hvalues := (append_iff hh hs (a := .baggedOrders) (c := .countNumOrdersBaggedAndReady)
        (fun _ => nofun) (i : ℤ)).mpr
      (hright.imp_left (congrArg Variable.baggedOrders))
    simp only [Networked.bagOrder, Threaded.bagOrder]
    split_ifs <;> exact ⟨⟨hs.globals, hvalues⟩, rfl, rfl⟩
  | togo i => exact ⟨hs.setMV hh _ _, rfl, rfl⟩
  | _ => exact ⟨hs, rfl, rfl⟩

theorem orderInventoryFood_same (hs : Stands h p m) {q : SupplyAt}
    (hright : RightAt h m (.orderInventoryFood q)) :
    SameSegment h (Networked.orderInventoryFood p q) (Threaded.orderInventoryFood m q) := by
  cases q with
  | look i =>
    simp only [Networked.orderInventoryFood, Threaded.orderInventoryFood, hs.getMV]
    split_ifs <;> exact ⟨hs, rfl, rfl⟩
  | refill i =>
    have hlow : m .moneyRest < m (.inventoryCost i) * 5 := hright
    simp only [Networked.orderInventoryFood, Threaded.orderInventoryFood, hs.getMV, if_pos hlow]
    exact ⟨hs, rfl, rfl⟩
  | bank i => exact hright.elim
  | _ => exact ⟨hs, rfl, rfl⟩

/-- **Where nothing was forgotten**, the segments do the same. -/
theorem run_same (hh : Function.Injective h) (hs : Stands h p m) {r : RoutineAt}
    (hright : RightAt h m r) : SameSegment h (Networked.run p r) (Threaded.run m r) := by
  cases r with
  | waitInLineToEnterRest id q => exact (waitInLineToEnterRest_same hh hs id q).map _
  | waitInLineToOrderFood id q => exact (waitInLineToOrderFood_same hh hs hright).map _
  | serviceCustomer id q => exact (serviceCustomer_same hh hs id q).map _
  | bagOrder isManager q => exact (bagOrder_same hh hs hright).map _
  | orderInventoryFood q => exact (orderInventoryFood_same hs hright).map _
  | releaseTable q =>
    cases q with
    | enter => exact ⟨hs, rfl, rfl⟩
    | free => exact hright.elim

/-- An assignment to a handle leaves the variable as it is. -/
theorem not_relocated_of_add {values : ℤ → ℤ} (hs : Relocated h values m) {v : Variable} {x : ℤ}
    (hx : 0 < x) : ¬ Relocated h values (m.set v (m v + x)) := by
  intro h'
  have heq := hs.update_right_iff.mp h'
  omega

/-- **Elsewhere** the segments leave different values. -/
theorem run_differs (hh : Function.Injective h) (hs : Stands h p m) {r : RoutineAt}
    (hwrong : ¬ RightAt h m r) :
    ¬ Relocated h (Networked.run p r).state.values (Threaded.run m r).state := by
  cases r with
  | waitInLineToEnterRest id q => exact absurd trivial hwrong
  | serviceCustomer id q => exact absurd trivial hwrong
  | waitInLineToOrderFood id q =>
    cases q with
    | join =>
      intro h'
      have hiff := append_iff hh hs (a := .lineToOrderFood) (c := .countLineToOrderFoodLength)
        (fun _ => nofun) id
      exact hwrong ((hiff.mp h').imp_left Variable.lineToOrderFood.inj)
    | _ => exact absurd trivial hwrong
  | bagOrder isManager q =>
    cases q with
    | eatIn i =>
      have hiff := append_iff hh hs (a := .baggedOrders) (c := .countNumOrdersBaggedAndReady)
        (fun _ => nofun) (i : ℤ)
      simp only [Networked.run, Threaded.run, Networked.bagOrder, Threaded.bagOrder]
      split_ifs
      · intro h'
        exact hwrong ((hiff.mp h').imp_left Variable.baggedOrders.inj)
      · intro h'
        exact hwrong ((hiff.mp h').imp_left Variable.baggedOrders.inj)
    | _ => exact absurd trivial hwrong
  | orderInventoryFood q =>
    cases q with
    | refill i =>
      have hlow : ¬ m .moneyRest < m (.inventoryCost i) * 5 := hwrong
      simp only [Networked.run, Threaded.run, Networked.orderInventoryFood,
        Threaded.orderInventoryFood, hs.getMV, if_neg hlow]
      exact not_relocated_of_add (hs.setMV hh .moneyRest _).values (by omega)
    | bank i =>
      simp only [Networked.run, Threaded.run, Networked.orderInventoryFood,
        Threaded.orderInventoryFood, hs.getMV]
      have hbank := hs.setMV hh .moneyRest
        (m .moneyRest + m (.inventoryCost i) * 2 * (5 + 5))
      simp only [hbank.getMV]
      exact not_relocated_of_add (hbank.setMV hh .moneyRest _).values (by omega)
    | _ => exact absurd trivial hwrong
  | releaseTable q =>
    cases q with
    | enter => exact absurd trivial hwrong
    | free => exact not_relocated_of_add hs.values Int.one_pos

end

/-! ## Runs -/

/-- What other threads write. -/
abbrev Writes := List (Variable × ℤ)

def Memory.writes (m : Memory) (others : Writes) : Memory :=
  others.foldl (fun m w => m.set w.1 w.2) m

/-- The other user programs have the handles `h`. -/
def Process.writes (h : Variable → ℤ) (p : Process) (others : Writes) : Process :=
  { p with values := others.foldl (fun values w => Function.update values (h w.1) w.2) p.values }

/-- A threaded routine and a user program, and where each of them goes on. -/
structure Both where
  memory : Memory
  process : Process
  threaded : Option RoutineAt
  networked : Option RoutineAt

/-- The state after a segment, and where the routine goes on, if it has not returned. -/
def goOn {σ : Type} (run : σ → RoutineAt → Segment σ RoutineAt) (s : σ) :
    Option RoutineAt → σ × Option RoutineAt
  | none => (s, none)
  | some r => ((run s r).state, (run s r).next)

/-- The other threads write, and then both go on. -/
def bothStep (h : Variable → ℤ) (b : Both) (others : Writes) : Except Empty Both :=
  let threaded := goOn Threaded.run (b.memory.writes others) b.threaded
  let networked := goOn Networked.run (b.process.writes h others) b.networked
  .ok ⟨threaded.1, networked.1, threaded.2, networked.2⟩

/-- The shared values are the values of the variables. -/
def Both.Agree (h : Variable → ℤ) (b : Both) : Prop := Relocated h b.process.values b.memory

/-- The routine goes on where nothing was forgotten. -/
def Both.Right (h : Variable → ℤ) (b : Both) (others : Writes) : Prop :=
  ∀ r ∈ b.threaded, RightAt h (b.memory.writes others) r

theorem Stands.writes {h : Variable → ℤ} {p : Process} {m : Memory} (hh : Function.Injective h)
    (hs : Stands h p m) (others : Writes) : Stands h (p.writes h others) (m.writes others) := by
  induction others generalizing p m with
  | nil => exact hs
  | cons w others ih =>
    have hset : Stands h { p with values := Function.update p.values (h w.1) w.2 }
        (m.set w.1 w.2) :=
      ⟨hs.globals, hs.values.update hh w.1 w.2⟩
    exact ih hset

/-- The user program stands for the threaded routine, in the same place. -/
structure Both.Together (h : Variable → ℤ) (b : Both) : Prop where
  stands : Stands h b.process b.memory
  place : b.networked = b.threaded

/-- **A right step** keeps them together. -/
theorem Both.Together.step {h : Variable → ℤ} {b : Both} (hh : Function.Injective h)
    (hb : b.Together h) {others : Writes} (hright : b.Right h others) :
    ∃ b', bothStep h b others = .ok b' ∧ b'.Together h := by
  refine ⟨_, rfl, ?_⟩
  have hwrites := hb.stands.writes hh others
  obtain ⟨m, p, threaded, networked⟩ := b
  obtain rfl : networked = threaded := hb.place
  cases networked with
  | none => exact ⟨hwrites, rfl⟩
  | some r =>
    have hsame := run_same hh hwrites (hright r rfl)
    exact ⟨hsame.stands, hsame.next⟩

/-- **Any other step** is seen. -/
theorem Both.Together.step_wrong {h : Variable → ℤ} {b b' : Both} (hh : Function.Injective h)
    (hb : b.Together h) {others : Writes} (hwrong : ¬ b.Right h others)
    (hs : bothStep h b others = .ok b') : ¬ b'.Agree h := by
  cases hs
  have hwrites := hb.stands.writes hh others
  obtain ⟨m, p, threaded, networked⟩ := b
  obtain rfl : networked = threaded := hb.place
  cases networked with
  | none => exact absurd (fun r hr => nomatch hr) hwrong
  | some r =>
    apply run_differs hh hwrites
    intro hright
    apply hwrong
    intro r' hr'
    cases hr'
    exact hright

/-- **The user programs** leave the shared values as the threaded routines leave their variables,
    throughout a schedule, if and only if each segment goes on where no `GetMV` or `SetMV` was
    forgotten. -/
theorem networked_like_threaded_iff (h : Variable → ℤ) (hh : Function.Injective h) (p : Process)
    (m : Memory) (hs : Stands h p m) (r : RoutineAt) (schedule : List Writes) :
    Throughout (bothStep h) (Both.Agree h) ⟨m, p, some r, some r⟩ schedule ↔
      Guarded (bothStep h) (Both.Right h) ⟨m, p, some r, some r⟩ schedule := by
  have hok (b : Both) (others : Writes) (hb : b.Together h) (hright : b.Right h others) :=
    hb.step hh hright
  have hbad (b : Both) (others : Writes) (b' : Both) (hb : b.Together h)
      (hwrong : ¬ b.Right h others) (hstep : bothStep h b others = .ok b') : ¬ b'.Agree h :=
    hb.step_wrong hh hwrong hstep
  have hstart : Both.Together h ⟨m, p, some r, some r⟩ := ⟨hs, rfl⟩
  exact throughout_iff_guarded (fun _ hb => hb.stands.values) hok hbad schedule hstart

/-- Handles in the order of the variables, 32 of them to an index. -/
def someHandles : Variable → ℤ
  | .countLineToEnterRestLength => 0
  | .lineToEnterRest i => 32 * i + 1
  | .countLineToOrderFoodLength => 2
  | .lineToOrderFood i => 32 * i + 3
  | .getOrderTakerIDFromCustomerID i => 32 * i + 4
  | .getCustomerOrderFoodChoiceFromOrderTakerID i => 32 * i + 5
  | .getCustomerTogoOrEatinFromCustomerID i => 32 * i + 6
  | .orderNumberFromCustomerID i => 32 * i + 7
  | .listOrdersReadyFromToken i => 32 * i + 8
  | .getCustomerIDFromToken i => 32 * i + 9
  | .inventoryCount i => 32 * i + 10
  | .inventoryCost i => 32 * i + 11
  | .cookedFoodStacks i => 32 * i + 12
  | .orderNumCounter => 13
  | .ordersNeedingBagging i => 32 * i + 14
  | .baggedOrders i => 32 * i + 15
  | .countNumOrdersBaggedAndReady => 16
  | .moneyRest => 17
  | .countNumTablesAvailable => 18

theorem someHandles_injective : Function.Injective someHandles := by
  intro v w hvw
  cases v <;> cases w <;> simp only [someHandles] at hvw <;> first | rfl | (congr; omega)

/-- All variables are 0. -/
theorem stands_zero : Stands someHandles ⟨someHandles, fun _ => 0⟩ fun _ => 0 :=
  ⟨rfl, fun _ => rfl⟩

/-- A customer joins the empty line at the element 2, the handle of its length. -/
theorem networked_like_threaded_iff_line :
    ¬ Throughout (bothStep someHandles) (Both.Agree someHandles)
      ⟨fun _ => 0, ⟨someHandles, fun _ => 0⟩, some (.waitInLineToOrderFood 7 .enter),
        some (.waitInLineToOrderFood 7 .enter)⟩ [[], []] := by
  rw [networked_like_threaded_iff someHandles someHandles_injective _ _ stands_zero]
  intro hguarded
  have hright : (2 : ℤ) = 0 ∨ (0 : ℤ) = 7 ∧ (0 : ℤ) = 7 := (hguarded.2 _ rfl).1 _ rfl
  omega

/-- The manager buys five items, and `inventoryCount` stays 0. -/
theorem networked_unlike_threaded :
    Function.Injective someHandles ∧ Stands someHandles ⟨someHandles, fun _ => 0⟩ (fun _ => 0) ∧
      ¬ Throughout (bothStep someHandles) (Both.Agree someHandles)
        ⟨fun _ => 0, ⟨someHandles, fun _ => 0⟩, some (.orderInventoryFood (.enter 0)),
          some (.orderInventoryFood (.enter 0))⟩ [[], [], []] := by
  refine ⟨someHandles_injective, stands_zero, ?_⟩
  intro hagree
  have hend := (hagree.of_exec rfl) (.inventoryCount 0)
  revert hend
  decide

end Nachos.Restaurant
