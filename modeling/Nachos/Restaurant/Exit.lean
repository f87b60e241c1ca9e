import Nachos.Restaurant.Routines

/-!
# When the staff stops

`shouldExit` compares the customers served with a target that `RunSimulation` sets only in the
branch for an argument out of range.

* `staff_stops_iff`: the staff stops only when everyone was served if and only if the number of
  customers was out of range, or nobody was to come.
-/

namespace Nachos.Restaurant

open Nachos.Lib Nachos.Threads

/-! ## The property -/

/-- Managers, order takers and cooks. -/
def Pc.Staff : Pc → Prop
  | .manager _ | .orderTaker _ | .cook _ => True
  | .main _ | .customer _ | .waiter _ => False

instance : DecidablePred Pc.Staff := fun p => by
  unfold Pc.Staff
  split <;> infer_instance

/-- Who of the staff has returned has returned when `numCustomers` were served, and they are the
    ones that are served now. -/
def StaffStopped (numCustomers : ℕ) (m : Simulation) : Prop :=
  ∀ t p, m.pc t = some p → p.Staff → m.status t = .finished →
    m.shared.countNumCustomersServed = numCustomers

/-! ## Program points -/

/-- The staff that is about to return, or has. -/
def Pc.Exiting : Pc → Prop
  | .manager (.exited _ true) | .orderTaker (.exited _ true) | .cook (.exited _) => True
  | _ => False

/-- The points at which a thread returns. -/
def Pc.Stopped : Pc → Prop
  | .main [] | .customer (.gone _) => True
  | .manager (.exited _ true) | .orderTaker (.exited _ true) | .cook (.exited _) => True
  | _ => False

/-- The customers at this point, or to be forked at it, who are not counted as served yet. -/
def Pc.unserved : Pc → ℕ
  | .main routines => routines.count .customer
  | .customer (.counted _) | .customer (.gone _) => 0
  | .customer _ => 1
  | .manager _ | .orderTaker _ | .waiter _ | .cook _ => 0

theorem Pc.Stopped.exiting {p : Pc} (h : p.Stopped) (hp : p.Staff) : p.Exiting := by
  unfold Pc.Stopped at h
  split at h <;> first | exact hp.elim | exact trivial | exact h.elim

/-- What a routine does for the customers' number and the exit. -/
structure Serves (s : Shared) (p : Pc) (a : Act Pc) : Prop where
  target : a.shared.countWhenAllCustomersServed = s.countWhenAllCustomersServed
  /-- A customer is counted once. -/
  served : a.shared.countNumCustomersServed + (a.pc.unserved + a.op.weight Pc.unserved) =
    s.countNumCustomersServed + p.unserved
  le : s.countNumCustomersServed ≤ a.shared.countNumCustomersServed
  exiting : a.pc.Exiting →
    p.Exiting ∨ s.countNumCustomersServed = s.countWhenAllCustomersServed
  finish : a.op = .finish → a.pc.Stopped
  fork : ∀ q, a.op = .fork q → ¬ q.Exiting

/-- Where the customers' number is neither read nor written. -/
theorem Serves.of_same {s : Shared} {p : Pc} {a : Act Pc}
    (htarget : a.shared.countWhenAllCustomersServed = s.countWhenAllCustomersServed)
    (hserved : a.shared.countNumCustomersServed = s.countNumCustomersServed)
    (hpc : a.pc.unserved + a.op.weight Pc.unserved = p.unserved) (hexiting : ¬ a.pc.Exiting)
    (hfinish : a.op ≠ .finish) (hfork : ∀ q, a.op = .fork q → ¬ q.Exiting) : Serves s p a :=
  ⟨htarget, by rw [hserved, hpc], hserved.ge, fun h => absurd h hexiting,
    fun h => absurd h hfinish, hfork⟩

/-- Where a routine is in another one that has nothing to do with the exit. -/
theorem Serves.of_map {α : Type} {s : Shared} {p : Pc} {a : Act α} {f : α → Pc}
    (htarget : a.shared.countWhenAllCustomersServed = s.countWhenAllCustomersServed)
    (hserved : a.shared.countNumCustomersServed = s.countNumCustomersServed)
    (hfork : ∀ r, a.op ≠ .fork r) (hfinish : a.op ≠ .finish) (hp : p.unserved = 0)
    (hf : ∀ q, (f q).unserved = 0 ∧ ¬ (f q).Exiting) : Serves s p (a.map f) := by
  refine Serves.of_same htarget hserved ?_ (hf a.pc).2 ?_ ?_
  · rw [hp]
    show (f a.pc).unserved + (a.op.map f).weight _ = 0
    rw [(hf a.pc).1]
    cases hop : a.op with
    | fork r => exact absurd hop (hfork r)
    | _ => rfl
  · intro hop
    change a.op.map f = .finish at hop
    cases h : a.op <;> rw [h] at hop <;> first | exact hfinish h | cases hop
  · intro q hop
    change a.op.map f = .fork q at hop
    cases h : a.op <;> rw [h] at hop <;> first | exact absurd h (hfork _) | cases hop

theorem serves_customer (random : ℕ) (s : Shared) (p : CustomerAt) :
    Serves s (.customer p) ((customer random s p).map .customer) := by
  cases p
  case count id => exact ⟨rfl, rfl, Nat.le_succ _, nofun, nofun, nofun⟩
  case gone id => exact ⟨rfl, rfl, le_rfl, nofun, fun _ => trivial, nofun⟩
  all_goals
    simp only [customer]
    try split_ifs
  all_goals exact Serves.of_same rfl rfl rfl not_false (ne_finish rfl) (not_fork rfl)

section

variable {p : Pc} {s : Shared}

theorem serves_service {id : ℕ} {q : ServiceAt} {f : Option ServiceAt → Pc}
    (hp : p.unserved = 0) (hf : ∀ q, (f q).unserved = 0 ∧ ¬ (f q).Exiting) :
    Serves s p ((serviceCustomer id s q).map f) := by
  cases q
  all_goals
    simp only [serviceCustomer]
    try split_ifs
  all_goals exact Serves.of_map rfl rfl (not_fork rfl) (ne_finish rfl) hp hf

theorem serves_bag {isManager : Bool} {q : BagAt} {f : Option BagAt → Pc}
    (hp : p.unserved = 0) (hf : ∀ q, (f q).unserved = 0 ∧ ¬ (f q).Exiting) :
    Serves s p ((bagOrder isManager s q).map f) := by
  have hwrites := bagOrder_writes isManager s q
  have hcalls := bagOrder_calls isManager s q
  apply Serves.of_map _ _ _ _ hp hf
  · rw [hwrites]
  · rw [hwrites]
  · intro r hr
    rw [hr] at hcalls
    exact hcalls
  · intro hr
    rw [hr] at hcalls
    exact hcalls

theorem serves_inventory {i : ℕ} {q : InventoryAt} {f : Option InventoryAt → Pc}
    (hp : p.unserved = 0) (hf : ∀ q, (f q).unserved = 0 ∧ ¬ (f q).Exiting) :
    Serves s p ((orderInventoryFood i s q).map f) := by
  cases q
  all_goals
    simp only [orderInventoryFood]
    try split_ifs
  all_goals exact Serves.of_map rfl rfl (not_fork rfl) (ne_finish rfl) hp hf

theorem serves_line {q : CheckLineAt} {f : Option CheckLineAt → Pc}
    (hp : p.unserved = 0) (hf : ∀ q, (f q).unserved = 0 ∧ ¬ (f q).Exiting) :
    Serves s p ((checkLineToEnterRest s q).map f) := by
  cases q
  all_goals
    simp only [checkLineToEnterRest]
    try split_ifs
  all_goals exact Serves.of_map rfl rfl (not_fork rfl) (ne_finish rfl) hp hf

/-- The cook that is hired serves nobody. -/
theorem serves_cookManager {i : ℕ} {q : ManageCookAt} {go : Option ManageCookAt → Pc}
    (hp : p.unserved = 0) (hgo : ∀ q, (go q).unserved = 0 ∧ ¬ (go q).Exiting) :
    Serves s p (manageCook go i s q) := by
  cases q
  all_goals
    simp only [manageCook]
    try split_ifs
  case hire =>
    refine Serves.of_same rfl rfl ((hgo _).1.trans hp.symm) (hgo _).2 nofun ?_
    intro q hq
    cases hq
    exact not_false
  all_goals exact Serves.of_same rfl rfl ((hgo _).1.trans hp.symm) (hgo _).2 (ne_finish rfl) (not_fork rfl)

/-- What `shouldExit` returns. -/
theorem serves_exit {q : ExitAt} {f : ExitAt ⊕ Bool → Pc} (hp : p.unserved = 0)
    (hf : ∀ r, (f r).unserved = 0) (hexiting : ∀ r, (f r).Exiting → r = .inr true) :
    Serves s p ((shouldExit s q).map f) := by
  cases q with
  | enter =>
    refine Serves.of_same rfl rfl ((hf _).trans hp.symm) ?_ nofun nofun
    intro h
    cases hexiting _ h
  | look =>
    refine ⟨rfl, ?_, le_rfl, ?_, nofun, nofun⟩
    · rw [hp]
      exact congrArg (s.countNumCustomersServed + ·) (hf _)
    · intro h
      exact Or.inr (of_decide_eq_true (Sum.inr.inj (hexiting _ h)))

end

theorem serves_manager (s : Shared) (p : ManagerAt) : Serves s (.manager p) (manager s p) := by
  cases p
  case service id rounds q =>
    apply serves_service rfl
    rintro (- | q)
    · cases rounds <;> exact ⟨rfl, not_false⟩
    · exact ⟨rfl, not_false⟩
  case bag id q =>
    apply serves_bag rfl
    rintro (- | q) <;> exact ⟨rfl, not_false⟩
  case inventory id i q =>
    apply serves_inventory rfl
    rintro (- | q)
    · simp only
      split_ifs <;> exact ⟨rfl, not_false⟩
    · exact ⟨rfl, not_false⟩
  case cook id i q =>
    rw [manager]
    apply serves_cookManager rfl
    rintro (- | q)
    · simp only
      split_ifs <;> exact ⟨rfl, not_false⟩
    · exact ⟨rfl, not_false⟩
  case line id q =>
    apply serves_line rfl
    rintro (- | q) <;> exact ⟨rfl, not_false⟩
  case exit id q =>
    apply serves_exit rfl
    · rintro (q | b) <;> rfl
    · rintro (q | (- | -)) h
      · exact h.elim
      · exact h.elim
      · rfl
  case exited id b =>
    cases b
    · exact Serves.of_same rfl rfl rfl not_false (ne_finish rfl) (not_fork rfl)
    · exact ⟨rfl, rfl, le_rfl, fun _ => Or.inl trivial, fun _ => trivial, nofun⟩
  all_goals
    simp only [manager]
    try split_ifs
  all_goals exact Serves.of_same rfl rfl rfl not_false (ne_finish rfl) (not_fork rfl)

theorem serves_orderTaker (s : Shared) (p : OrderTakerAt) :
    Serves s (.orderTaker p) ((orderTaker s p).map .orderTaker) := by
  cases p
  case service id q =>
    rw [orderTaker, Action.map_map]
    apply serves_service rfl
    rintro (- | q) <;> exact ⟨rfl, not_false⟩
  case bag id q =>
    rw [orderTaker, Action.map_map]
    apply serves_bag rfl
    rintro (- | q) <;> exact ⟨rfl, not_false⟩
  case exit id q =>
    rw [orderTaker, Action.map_map]
    apply serves_exit rfl
    · rintro (q | b) <;> rfl
    · rintro (q | (- | -)) h
      · exact h.elim
      · exact h.elim
      · rfl
  case exited id b =>
    cases b
    · exact Serves.of_same rfl rfl rfl not_false (ne_finish rfl) (not_fork rfl)
    · exact ⟨rfl, rfl, le_rfl, fun _ => Or.inl trivial, fun _ => trivial, nofun⟩
  all_goals exact Serves.of_same rfl rfl rfl not_false (ne_finish rfl) (not_fork rfl)

theorem serves_cook (s : Shared) (p : CookAt) : Serves s (.cook p) ((cook s p).map .cook) := by
  cases p
  case exit id q =>
    rw [cook, Action.map_map]
    apply serves_exit rfl
    · rintro (q | (- | -)) <;> rfl
    · rintro (q | (- | -)) h
      · exact h.elim
      · exact h.elim
      · rfl
  case exited id => exact ⟨rfl, rfl, le_rfl, fun _ => Or.inl trivial, fun _ => trivial, nofun⟩
  all_goals
    simp only [cook]
    try split_ifs
  all_goals exact Serves.of_same rfl rfl rfl not_false (ne_finish rfl) (not_fork rfl)

theorem serves_waiter (s : Shared) (p : WaiterAt) :
    Serves s (.waiter p) ((waiter s p).map .waiter) := by
  cases p
  all_goals
    simp only [waiter]
    try split_ifs
  all_goals exact Serves.of_same rfl rfl rfl not_false (ne_finish rfl) (not_fork rfl)

/-- **Every point of the program.** -/
theorem serves_program (p : Pc) (x : ℕ) (s : Shared) : Serves s p (program p x s) := by
  cases p with
  | main routines =>
    cases routines with
    | nil => exact ⟨rfl, rfl, le_rfl, nofun, fun _ => trivial, nofun⟩
    | cons routine rest =>
      refine Serves.of_same rfl rfl ?_ not_false nofun ?_
      · show rest.count .customer + routine.start.unserved = (routine :: rest).count .customer
        cases routine <;> simp [Routine.start, Pc.unserved]
      · intro q hq
        cases hq
        cases routine <;> exact not_false
  | customer p => exact serves_customer x s p
  | manager p => exact serves_manager s p
  | orderTaker p => exact serves_orderTaker s p
  | waiter p => exact serves_waiter s p
  | cook p => exact serves_cook s p

/-! ## The invariant -/

/-- **The invariant**, if the target is the number of customers. -/
structure StopInv (numCustomers : ℕ) (m : Simulation) : Prop where
  ok : m.Ok
  target : m.shared.countWhenAllCustomersServed = numCustomers
  /-- Each customer is served, or not served yet, or not forked yet. -/
  total : m.shared.countNumCustomersServed + m.total Pc.unserved = numCustomers
  exiting : ∀ t p, m.pc t = some p → p.Exiting →
    m.shared.countNumCustomersServed = numCustomers
  stopped : ∀ t p, m.pc t = some p → m.status t = .finished → p.Stopped

namespace StopInv

variable {n : ℕ} {m m' : Simulation} {t x : ℕ}

theorem init (routines : List Routine) :
    StopInv (routines.count .customer)
      (.init (.main routines) (initializeShared (routines.count .customer))) := by
  refine ⟨Machine.Ok.init _ _, rfl, ?_, ?_, ?_⟩
  · show 0 + ∑ t ∈ Finset.range (0 + 1),
      (Function.update (fun _ => none) 0 (some (Pc.main routines)) t).elim 0 Pc.unserved = _
    simp [Pc.unserved]
  · intro t p hp hexiting
    change Function.update (fun _ => none) 0 (some (Pc.main routines)) t = some p at hp
    by_cases ht : t = 0
    · subst ht
      rw [Function.update_self] at hp
      cases hp
      exact hexiting.elim
    · rw [Function.update_of_ne ht] at hp
      cases hp
  · intro t p _ ht
    cases ht

/-- No call but `Finish` matters. -/
theorem of_call (h : StopInv n m) (hok : m'.Ok) (hshared : m'.shared = m.shared)
    (htotal : m'.total Pc.unserved = m.total Pc.unserved) (hpc : m'.pc = m.pc)
    (hstatus : ∀ u, m'.status u = .finished → m.status u = .finished) : StopInv n m' := by
  refine ⟨hok, ?_, ?_, ?_, ?_⟩
  · rw [hshared]
    exact h.target
  · rw [hshared, htotal]
    exact h.total
  · rw [hshared, hpc]
    exact h.exiting
  · rw [hpc]
    intro u p hp hu
    exact h.stopped u p hp (hstatus u hu)

/-- **One step.** -/
theorem step (h : StopInv n m) (hs : simulationStep m (t, x) = .ok m') : StopInv n m' := by
  have hok : m'.Ok := h.ok.step hs
  rcases Machine.step_cases hs with
    ⟨p, hp, ht, rfl⟩ | ⟨p, l, -, -, rfl⟩ | ⟨p, c, l, -, -, rfl⟩
  · have hserves := serves_program p x m.shared
    generalize program p x m.shared = a at hserves hok ⊢
    have hok' : (m.compute t a.shared a.pc).Ok := h.ok.compute (by simp [hp]) _ _
    have hshared : ((m.compute t a.shared a.pc).perform t a.op).shared = a.shared :=
      Machine.shared_perform _ t a.op
    have hcompute := Machine.total_compute h.ok hp Pc.unserved a.shared a.pc
    have hperform := Machine.total_perform (m.compute t a.shared a.pc) t a.op Pc.unserved
    have hserved := hserves.served
    have hle := hserves.le
    have htotal := h.total
    have htarget := h.target
    -- once everyone is served, everyone stays served
    have hall (hserved : m.shared.countNumCustomersServed = n) :
        a.shared.countNumCustomersServed = n := by
      omega
    refine ⟨hok, ?_, ?_, ?_, ?_⟩
    · rw [hshared, hserves.target, htarget]
    · rw [hshared]
      omega
    · intro u q hq hexiting
      rw [hshared]
      apply hall
      rcases Machine.pc_computed h.ok hq with ⟨rfl, rfl⟩ | ⟨-, hold⟩ | ⟨-, hfork⟩
      · rcases hserves.exiting hexiting with hp' | hserved
        · exact h.exiting u p hp hp'
        · rw [hserved, htarget]
      · exact h.exiting u q hold hexiting
      · exact absurd hexiting (hserves.fork q hfork)
    · intro u q hq hu
      rcases Machine.status_perform_finished hok' hu with hold | ⟨rfl, hfinish⟩
      · rcases Machine.pc_computed h.ok hq with ⟨rfl, rfl⟩ | ⟨-, hpc⟩ | ⟨hnone, -⟩
        · rw [show m.status u = .finished from hold] at ht
          cases ht
        · exact h.stopped u q hpc hold
        · have hidle := h.ok.idle u hnone
          rw [show m.status u = .finished from hold] at hidle
          cases hidle
      · rcases Machine.pc_computed h.ok hq with ⟨-, rfl⟩ | ⟨hne, -⟩ | ⟨hnone, -⟩
        · exact hserves.finish hfinish
        · exact absurd rfl hne
        · rw [hp] at hnone
          cases hnone
  · refine h.of_call hok rfl rfl rfl fun u hu => ?_
    change (m.perform t (.acquire l)).status u = .finished at hu
    rcases Machine.status_perform_finished h.ok hu with hold | ⟨-, hfinish⟩
    · exact hold
    · cases hfinish
  · refine h.of_call hok (Machine.shared_broadcast _ _ _ _) (Machine.total_broadcast m t c l _)
      (Machine.pc_broadcast _ _ _ _) fun u hu => ?_
    change (m.perform t (.broadcast c l)).status u = .finished at hu
    rcases Machine.status_perform_finished h.ok hu with hold | ⟨-, hfinish⟩
    · exact hold
    · cases hfinish

end StopInv

/-! ## The theorem -/

theorem count_customer (numOrderTakers numWaiters numCustomers : ℕ) :
    (forkedRoutines numOrderTakers numWaiters numCustomers).count .customer = numCustomers := by
  simp [forkedRoutines, List.count_replicate]

/-- The number of customers that `RunSimulation` forks. -/
def customersForked (numCustomers : ℤ) : ℕ :=
  orDefault numCustomers countMaxNumCustomers countDefaultNumCustomers

/-- **Sufficient**: the target is the number of customers. -/
theorem staffStopped_of_target (routines : List Routine) {events : List (ℕ × ℕ)} {m : Simulation}
    (h : exec simulationStep
      (.init (.main routines) (initializeShared (routines.count .customer))) events = .ok m) :
    StaffStopped (routines.count .customer) m := by
  have hinv : StopInv (routines.count .customer) m :=
    exec_preserves (fun _ _ _ hinv hs => hinv.step hs) (StopInv.init routines) h
  intro t p hp hstaff ht
  exact hinv.exiting t p hp ((hinv.stopped t p hp ht).exiting hstaff)

/-- The manager goes round once, and each of the cooks that it hires says that he is there. -/
def managerRound : List (ℕ × ℕ) :=
  (List.replicate 37 1 ++ [2, 2, 1, 2] ++ List.replicate 6 1 ++ [3, 3, 1, 3] ++
    List.replicate 6 1 ++ [4, 4, 1, 4] ++ List.replicate 6 1 ++ [5, 5, 1, 5] ++
    List.replicate 7 1).map fun t => (t, 0)

/-- While the main thread has forked nobody but the manager, the manager returns. -/
theorem managerRound_ends :
    Ends simulationStep ((Machine.init (.main []) (initializeShared 0)).fork (.manager .start))
      managerRound fun m => m.pc 1 = some (.manager (.exited 0 true)) ∧
        m.status 1 = .finished ∧ m.shared.countNumCustomersServed = 0 := by
  decide +kernel

/-- **Necessary**: with the target 0, the manager returns while nobody is served. -/
theorem exists_stopped_early (rest : List Routine) :
    ∃ events m, exec simulationStep
        (.init (.main (.manager :: rest)) (initializeShared 0)) events = .ok m ∧
      m.pc 1 = some (.manager (.exited 0 true)) ∧ m.status 1 = .finished ∧
        m.shared.countNumCustomersServed = 0 := by
  obtain ⟨m, hm, hpc, hstatus, hserved⟩ := managerRound_ends
  have hrun := Machine.exec_put (u := 0) (q := .main rest) (Nat.zero_le _) (by decide) hm
  refine ⟨(0, 0) :: managerRound, m.put 0 (.main rest), ?_, ?_, hstatus, hserved⟩
  · -- the main thread forks the manager
    have hstep : simulationStep (.init (.main (.manager :: rest)) (initializeShared 0)) (0, 0) =
        .ok (((Machine.init (.main []) (initializeShared 0)).fork (.manager .start)).put 0
          (.main rest)) := by
      have hpc : Function.update (Function.update (Function.update (fun _ => none) 0
          (some (Pc.main (.manager :: rest)))) 0 (some (Pc.main rest))) 1
            (some (Pc.manager .start)) =
          Function.update (Function.update (Function.update (fun _ => none) 0
            (some (Pc.main []))) 1 (some (Pc.manager .start))) 0 (some (Pc.main rest)) := by
        funext u
        rcases u with - | - | u <;> rfl
      exact congrArg (fun pc : ℕ → Option Pc => Except.ok
        { (Machine.init (Pc.main []) (initializeShared 0) : Simulation) with
          numThreads := 1, pc := pc }) hpc
    rw [exec_cons_ok hstep]
    exact hrun
  · exact hpc

/-- **The staff stops only when everyone was served** if and only if the number of customers was
    out of range, or 0. -/
theorem staff_stops_iff (numOrderTakers numWaiters numCustomers : ℤ) :
    (∀ events m, exec simulationStep (runSimulation numOrderTakers numWaiters numCustomers)
        events = .ok m → StaffStopped (customersForked numCustomers) m) ↔
      numCustomers < 0 ∨ countMaxNumCustomers < numCustomers ∨ numCustomers = 0 := by
  by_cases hrange : numCustomers < 0 ∨ countMaxNumCustomers < numCustomers
  · refine iff_of_true ?_ (hrange.imp_right Or.inl)
    intro events m h
    have htarget : orDefault numCustomers countMaxNumCustomers countDefaultNumCustomers =
        countDefaultNumCustomers := if_pos hrange
    rw [customersForked, htarget]
    rw [runSimulation, if_pos hrange, htarget] at h
    have hstopped := staffStopped_of_target (forkedRoutines _ _ _) (by
      rw [count_customer]
      exact h)
    rwa [count_customer] at hstopped
  · have hforked : orDefault numCustomers countMaxNumCustomers countDefaultNumCustomers =
        numCustomers.toNat := if_neg hrange
    rw [customersForked, runSimulation, if_neg hrange, hforked]
    constructor
    · intro hall
      obtain ⟨events, m, h, hpc, hstatus, hserved⟩ := exists_stopped_early
        (List.replicate numCustomers.toNat .customer ++
          List.replicate (orDefault numOrderTakers countMaxNumOrderTakers
            countDefaultNumOrderTakers) .orderTaker ++
          List.replicate (orDefault numWaiters countMaxNumWaiters countDefaultNumWaiters) .waiter)
      have hzero := hall events m h 1 _ hpc trivial hstatus
      omega
    · intro hzero
      have hnone : numCustomers.toNat = 0 := by omega
      rw [hnone]
      intro events m h
      have hstopped := staffStopped_of_target (forkedRoutines _ _ 0) (by
        rw [count_customer]
        exact h)
      rwa [count_customer] at hstopped

/-- With 3 order takers, 3 waiters and 4 customers: the main thread forks them all, and then the
    first order taker goes round once. -/
theorem staff_stops_early :
    ¬ ∀ (numOrderTakers numWaiters numCustomers : ℤ) (events : List (ℕ × ℕ)) (m : Simulation),
      exec simulationStep (runSimulation numOrderTakers numWaiters numCustomers) events = .ok m →
        StaffStopped (customersForked numCustomers) m := by
  intro hall
  have hrun : Ends simulationStep (runSimulation 3 3 4)
      ((List.replicate 11 0 ++ List.replicate 10 6).map fun t => (t, 0))
      fun m => m.pc 6 = some (.orderTaker (.exited 0 true)) ∧ m.status 6 = .finished ∧
        m.shared.countNumCustomersServed = 0 := by
    decide +kernel
  obtain ⟨m, h, hpc, hstatus, hserved⟩ := hrun
  have hfour := hall 3 3 4 _ m h 6 _ hpc trivial hstatus
  rw [hserved] at hfour
  cases hfour

end Nachos.Restaurant
