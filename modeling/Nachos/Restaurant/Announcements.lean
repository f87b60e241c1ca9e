import Nachos.Restaurant.Food

/-!
# Food is conserved, and orders are announced once

The mask of an order loses a bit whenever an item goes into its bag. Who bags has the lock of the
orders, so that nobody else completes the order that it has in hand.

* `food_conserved`: what has been cooked is on the stacks or in the bags, and each order is
  announced once, when all of its food is in its bag.
-/

namespace Nachos.Restaurant

open Nachos.Lib Nachos.Threads

/-! ## The property -/

/-- **Food is conserved**, and each order is announced once. -/
structure FoodConserved (s : Shared) (led : Ledger) : Prop where
  cookedFood : ∀ j, 1 ≤ j →
    (led.cooked.count j : ℤ) = s.cookedFoodStacks j + ((led.bagged.map Prod.snd).count j : ℤ)
  cookedFood_nonneg : ∀ j, 0 ≤ s.cookedFoodStacks j
  inventory_nonneg : ∀ i, 0 ≤ s.inventoryCount i
  once : led.announced.Nodup
  /-- Each item but soda that the customer of an announced token has ordered is in the bag. -/
  whole : ∀ n ∈ led.announced, ∃ i choice eatIn, (i, n) ∈ s.history.numbered ∧
    (i, choice, eatIn) ∈ s.history.ordered ∧
      ∀ j, 1 ≤ j → led.bagged.count (n, j) = if choice.testBit j then 1 else 0

/-! ## Runs with a ledger -/

/-- The ledger after a step. -/
def Ledger.after (led : Ledger) (m : Simulation) (tx : ℕ × ℕ) : Ledger :=
  match m.pc tx.1, m.status tx.1 with
  | some p, .ready => led.note p (program p tx.2 m.shared)
  | _, _ => led

/-- A step of the simulation, with the ledger. -/
def ledgerStep (ml : Simulation × Ledger) (tx : ℕ × ℕ) : Except Impossible (Simulation × Ledger) :=
  (simulationStep ml.1 tx).map fun m => (m, ml.2.after ml.1 tx)

/-- No thread goes on, and none asks for another lock. -/
structure Same (m m' : Simulation) : Prop where
  pc : m'.pc = m.pc
  shared : m'.shared = m.shared
  blocks : ∀ u l, (m'.status u).Blocks l → (m.status u).Blocks l

/-- **A step** is a call, which the ledger notes, or no thread goes on. -/
theorem ledgerStep_cases {m m' : Simulation} {led led' : Ledger} {t x : ℕ} (hok : m.Ok)
    (h : ledgerStep (m, led) (t, x) = .ok (m', led')) :
    simulationStep m (t, x) = .ok m' ∧
      ((∃ r, m.pc t = some r ∧ m.status t = .ready ∧ m' = after m t (program r x m.shared) ∧
          led' = led.note r (program r x m.shared)) ∨
        Same m m' ∧ led' = led) := by
  unfold ledgerStep at h
  cases hs : simulationStep m (t, x) with
  | error e =>
    rw [hs] at h
    cases h
  | ok m'' =>
    rw [hs] at h
    cases h
    refine ⟨rfl, ?_⟩
    rcases Machine.step_cases hs with
      ⟨r, hr, ht, rfl⟩ | ⟨r, l, hr, ht, rfl⟩ | ⟨r, c, l, hr, ht, rfl⟩
    · left
      refine ⟨r, hr, ht, rfl, ?_⟩
      simp only [Ledger.after, hr, ht]
    · right
      refine ⟨⟨rfl, rfl, fun u k => Machine.blocks_acquire ht⟩, ?_⟩
      simp only [Ledger.after, hr, ht]
    · right
      refine ⟨⟨Machine.pc_broadcast m t c l, Machine.shared_broadcast m t c l,
        fun u k => Machine.blocks_broadcast hok⟩, ?_⟩
      simp only [Ledger.after, hr, ht]

/-- Every run has a ledger. -/
theorem exec_ledger {m m' : Simulation} {events : List (ℕ × ℕ)}
    (h : exec simulationStep m events = .ok m') (led : Ledger) :
    ∃ led', exec ledgerStep (m, led) events = .ok (m', led') := by
  induction events generalizing m led with
  | nil =>
    cases h
    exact ⟨led, rfl⟩
  | cons tx events ih =>
    obtain ⟨m₁, hs, hrest⟩ := exec_cons_eq_ok h
    have hstep : ledgerStep (m, led) tx = .ok (m₁, led.after m tx) := by
      rw [ledgerStep, hs]
      rfl
    rw [exec_cons_ok hstep]
    exact ih hrest _

/-! ## Cooking -/

/-- **The kitchen**: nobody takes what is not there. -/
structure Kitchen (m : Simulation) (led : Ledger) : Prop where
  inventory : ∀ i, 0 ≤ m.shared.inventoryCount i
  fetch : ∀ u i, m.pc u = some (.cook (.fetch i)) →
    0 < m.shared.inventoryCount i ∧ ¬ (m.status u).Blocks (.inventory i)
  cookedFood : ∀ j, 0 ≤ m.shared.cookedFoodStacks j
  conserved : ∀ j, (led.cooked.count j : ℤ) =
    m.shared.cookedFoodStacks j + ((led.bagged.map Prod.snd).count j : ℤ)

section

variable {m m' : Simulation} {led led' : Ledger} {t x : ℕ} {r : Pc}

namespace Kitchen

/-- A call. -/
theorem after_call (h : Kitchen m led) (hbase : OrderedInv m) (hr : m.pc t = some r)
    (ht : m.status t = .ready) (x : ℕ) :
    Kitchen (after m t (program r x m.shared)) (led.note r (program r x m.shared)) := by
  have hstep := (foodStep_program r x m.shared).kitchen
  have hok := hbase.sessions.ok
  have hshared : (after m t (program r x m.shared)).shared = (program r x m.shared).shared :=
    Machine.shared_perform _ t _
  have hok' := hok.compute (by simp [hr] : m.pc t ≠ none) (program r x m.shared).shared
    (program r x m.shared).pc
  refine ⟨?_, ?_, ?_, ?_⟩
  · intro i
    rw [hshared]
    have hi := h.inventory i
    rcases hstep.inventory i with hle | ⟨rfl, heq⟩
    · omega
    · have hthere := (h.fetch t i hr).1
      omega
  · intro u i hu
    rw [hshared]
    -- no call asks for this lock
    have hblocks (hold : ¬ (m.status u).Blocks (.inventory i))
        (hop : u = t → (program r x m.shared).op = .yield) :
        ¬ ((after m t (program r x m.shared)).status u).Blocks (.inventory i) := by
      intro hb
      rcases Machine.blocks_perform hok' ht hb with hb | ⟨hut, hcall⟩
      · exact hold hb
      · rw [hop hut] at hcall
        rcases hcall with hcall | ⟨c, hcall⟩ <;> cases hcall
    rcases Machine.pc_computed hok hu with ⟨rfl, heq⟩ | ⟨hne, hold⟩ | ⟨-, hfork⟩
    · obtain ⟨hthere, hop⟩ := hstep.fetch i heq.symm
      refine ⟨hthere, hblocks ?_ fun _ => hop⟩
      rw [ht]
      exact id
    · obtain ⟨hthere, hfree⟩ := h.fetch u i hold
      refine ⟨?_, hblocks hfree fun hut => absurd hut hne⟩
      rcases hstep.inventory i with hle | ⟨rfl, -⟩
      · omega
      · -- two cooks with the same lock
        refine absurd (hbase.owns.unique ⟨_, hold, rfl⟩ ⟨_, hr, rfl⟩ hfree ?_) hne
        rw [ht]
        exact id
    · exact absurd rfl (hstep.fork _ i hfork)
  · intro j
    rw [hshared]
    exact hstep.nonneg j (h.cookedFood j)
  · intro j
    rw [hshared, hstep.cookedFood j]
    have hconserved := h.conserved j
    simp only [Ledger.note, List.map_append, List.count_append, Nat.cast_add]
    omega

/-- A step in which no thread goes on. -/
theorem of_same (h : Kitchen m led) (hsame : Same m m') : Kitchen m' led := by
  refine ⟨?_, ?_, ?_, ?_⟩
  · rw [hsame.shared]
    exact h.inventory
  · intro u i hu
    rw [hsame.pc] at hu
    rw [hsame.shared]
    obtain ⟨hthere, hfree⟩ := h.fetch u i hu
    exact ⟨hthere, fun hb => hfree (hsame.blocks u _ hb)⟩
  · rw [hsame.shared]
    exact h.cookedFood
  · rw [hsame.shared]
    exact h.conserved

end Kitchen

end

/-! ## Bagging -/

/-- **The bags**: the mask of an order is what is not in its bag yet. -/
structure Bags (s : Shared) (led : Ledger) : Prop where
  needed : ∀ n c j, (n, c) ∈ s.history.entered → (s.ordersNeedingBagging n).testBit j → c.testBit j
  bagged : ∀ n c j, (n, c) ∈ s.history.entered → 1 ≤ j → led.bagged.count (n, j) =
    if c.testBit j ∧ ¬ (s.ordersNeedingBagging n).testBit j then 1 else 0
  bagged_entered : ∀ n j, (n, j) ∈ led.bagged → Entered s n
  announced_entered : ∀ n ∈ led.announced, Entered s n
  announced_whole : ∀ n ∈ led.announced, s.ordersNeedingBagging n = 0
  once : led.announced.Nodup

namespace Bags

variable {s s' : Shared} {led led' : Ledger} {n j : ℕ}

theorem of_same (h : Bags s led) (horders : s'.ordersNeedingBagging = s.ordersNeedingBagging)
    (hentered : s'.history.entered = s.history.entered) (hbagged : led'.bagged = led.bagged)
    (hannounced : led'.announced = led.announced) : Bags s' led' := by
  refine ⟨?_, ?_, ?_, ?_, ?_, ?_⟩
  · rw [horders, hentered]
    exact h.needed
  · rw [horders, hentered, hbagged]
    exact h.bagged
  · unfold Entered
    rw [hbagged, hentered]
    exact h.bagged_entered
  · unfold Entered
    rw [hannounced, hentered]
    exact h.announced_entered
  · rw [hannounced, horders]
    exact h.announced_whole
  · rw [hannounced]
    exact h.once

/-- One item goes into a bag: its bit is cleared. -/
theorem testBit_bagItem (hneeded : (s.ordersNeedingBagging n).testBit j) (n' j' : ℕ) :
    ((bagItem s n j).ordersNeedingBagging n').testBit j' =
      ((s.ordersNeedingBagging n').testBit j' && !decide (n' = n ∧ j' = j)) := by
  show (Function.update s.ordersNeedingBagging n _ n').testBit j' = _
  by_cases hn : n' = n
  · subst hn
    rw [Function.update_self, Nat.testBit_xor, Nat.one_shiftLeft, Nat.testBit_two_pow]
    by_cases hj : j' = j
    · subst hj
      simp [hneeded]
    · simp [hj, Ne.symm hj]
  · rw [Function.update_of_ne hn]
    simp [hn]

/-- An item that the order needs goes into its bag. -/
theorem item (h : Bags s led) (hentered : Entered s n) (hj : 1 ≤ j)
    (hneeded : (s.ordersNeedingBagging n).testBit j)
    (hbagged : led'.bagged = led.bagged ++ [(n, j)])
    (hannounced : led'.announced = led.announced) : Bags (bagItem s n j) led' := by
  have hbits := testBit_bagItem hneeded
  refine ⟨?_, ?_, ?_, ?_, ?_, ?_⟩
  · intro n' c j' hc hbit
    rw [hbits, Bool.and_eq_true] at hbit
    exact h.needed n' c j' hc hbit.1
  · intro n' c j' hc hj'
    change (n', c) ∈ s.history.entered at hc
    have hold := h.bagged n' c j' hc hj'
    rw [hbagged, List.count_append, hold, hbits]
    by_cases hsame : n' = n ∧ j' = j
    · obtain ⟨rfl, rfl⟩ := hsame
      have hchoice := h.needed n' c j' hc hneeded
      simp [hneeded, hchoice]
    · have hother : [(n, j)].count (n', j') = 0 :=
        List.count_eq_zero_of_not_mem (by simpa using hsame)
      rw [hother, decide_eq_false hsame]
      simp
  · intro n' j' hmem
    rw [hbagged, List.mem_append, List.mem_singleton] at hmem
    rcases hmem with hold | hnew
    · exact h.bagged_entered n' j' hold
    · cases hnew
      exact hentered
  · rw [hannounced]
    exact h.announced_entered
  · rw [hannounced]
    intro n' hn'
    have hzero := h.announced_whole n' hn'
    have hne : n' ≠ n := by
      rintro rfl
      rw [hzero, Nat.zero_testBit] at hneeded
      cases hneeded
    exact (Function.update_of_ne hne _ _).trans hzero
  · rw [hannounced]
    exact h.once

/-- An order with no more than a soda has all its food. -/
theorem testBit_bagWhole (hbagged : s.ordersNeedingBagging n ≤ 1) (n' : ℕ) (hj : 1 ≤ j) :
    ((bagWhole s n).ordersNeedingBagging n').testBit j = (s.ordersNeedingBagging n').testBit j := by
  show (Function.update s.ordersNeedingBagging n 0 n').testBit j = _
  by_cases hn : n' = n
  · subst hn
    rw [Function.update_self, Nat.zero_testBit]
    have hlt : s.ordersNeedingBagging n' < 2 ^ j :=
      lt_of_le_of_lt hbagged (Nat.one_lt_two_pow (by omega))
    exact (Nat.testBit_lt_two_pow hlt).symm
  · rw [Function.update_of_ne hn]

/-- An order is complete. -/
theorem complete (h : Bags s led) (hwhole : s.ordersNeedingBagging n ≤ 1)
    (hbagged : led'.bagged = led.bagged) (hannounced : led'.announced = led.announced) :
    Bags (bagWhole s n) led' := by
  refine ⟨?_, ?_, ?_, ?_, ?_, ?_⟩
  · intro n' c j' hc hbit
    change (Function.update s.ordersNeedingBagging n 0 n').testBit j' = true at hbit
    by_cases hn : n' = n
    · rw [hn, Function.update_self, Nat.zero_testBit] at hbit
      cases hbit
    · rw [Function.update_of_ne hn] at hbit
      exact h.needed n' c j' hc hbit
  · intro n' c j' hc hj'
    rw [hbagged, testBit_bagWhole hwhole n' hj']
    exact h.bagged n' c j' hc hj'
  · rw [hbagged]
    exact h.bagged_entered
  · rw [hannounced]
    exact h.announced_entered
  · rw [hannounced]
    intro n' hn'
    show Function.update s.ordersNeedingBagging n 0 n' = 0
    by_cases hn : n' = n
    · rw [hn, Function.update_self]
    · rw [Function.update_of_ne hn]
      exact h.announced_whole n' hn'
  · rw [hannounced]
    exact h.once

/-- A complete order is announced. -/
theorem announce (h : Bags s led) (hentered : Entered s n) (hwhole : s.ordersNeedingBagging n = 0)
    (hnew : n ∉ led.announced) (hbagged : led'.bagged = led.bagged)
    (hannounced : led'.announced = led.announced ++ [n]) : Bags s led' := by
  have hmem {n' : ℕ} (hn' : n' ∈ led'.announced) : n' ∈ led.announced ∨ n' = n := by
    rw [hannounced, List.mem_append, List.mem_singleton] at hn'
    exact hn'
  refine ⟨h.needed, ?_, ?_, ?_, ?_, ?_⟩
  · rw [hbagged]
    exact h.bagged
  · rw [hbagged]
    exact h.bagged_entered
  · intro n' hn'
    rcases hmem hn' with hold | rfl
    · exact h.announced_entered n' hold
    · exact hentered
  · intro n' hn'
    rcases hmem hn' with hold | rfl
    · exact h.announced_whole n' hold
    · exact hwhole
  · rw [hannounced, ← List.concat_eq_append]
    exact h.once.concat hnew

/-- An order is entered, with all of its food to go. -/
theorem enter (h : Bags s led) (hnew : ∀ c, (n, c) ∉ s.history.entered) (c : ℕ)
    (horders : s'.ordersNeedingBagging = Function.update s.ordersNeedingBagging n c)
    (hentered : s'.history.entered = s.history.entered ++ [(n, c)])
    (hbagged : led'.bagged = led.bagged) (hannounced : led'.announced = led.announced) :
    Bags s' led' := by
  have hne {n' : ℕ} (hn' : Entered s n') : n' ≠ n := by
    rintro rfl
    obtain ⟨c', hc'⟩ := hn'
    exact hnew c' hc'
  have hmem {n' c' : ℕ} (hc' : (n', c') ∈ s'.history.entered) :
      (n', c') ∈ s.history.entered ∨ n' = n ∧ c' = c := by
    rw [hentered, List.mem_append, List.mem_singleton, Prod.mk.injEq] at hc'
    exact hc'
  have hkeep {n' : ℕ} (hn' : Entered s n') : Entered s' n' := by
    obtain ⟨c', hc'⟩ := hn'
    exact ⟨c', by rw [hentered]; exact List.mem_append_left _ hc'⟩
  refine ⟨?_, ?_, ?_, ?_, ?_, ?_⟩
  · intro n' c' j' hc' hbit
    rw [horders] at hbit
    rcases hmem hc' with hold | ⟨rfl, rfl⟩
    · rw [Function.update_of_ne (hne ⟨c', hold⟩)] at hbit
      exact h.needed n' c' j' hold hbit
    · rwa [Function.update_self] at hbit
  · intro n' c' j' hc' hj'
    rw [hbagged, horders]
    rcases hmem hc' with hold | ⟨rfl, rfl⟩
    · rw [Function.update_of_ne (hne ⟨c', hold⟩)]
      exact h.bagged n' c' j' hold hj'
    · rw [Function.update_self, if_neg (by simp), List.count_eq_zero]
      intro hin
      exact hne (h.bagged_entered n' j' hin) rfl
  · rw [hbagged]
    exact fun n' j' hin => hkeep (h.bagged_entered n' j' hin)
  · rw [hannounced]
    exact fun n' hn' => hkeep (h.announced_entered n' hn')
  · rw [hannounced, horders]
    intro n' hn'
    rw [Function.update_of_ne (hne (h.announced_entered n' hn'))]
    exact h.announced_whole n' hn'
  · rw [hannounced]
    exact h.once

end Bags

/-- **Who bags**: an order that a thread has in hand is not announced, and the thread has the lock
    of the orders. -/
structure Baggers (m : Simulation) (led : Ledger) : Prop where
  hand : ∀ u p n, m.pc u = some p → p.hand = some n →
    n ∉ led.announced ∧ ¬ (m.status u).Blocks .ordersNeedingBagging
  whole : ∀ u p n, m.pc u = some p → n ∈ announcedBy p → m.shared.ordersNeedingBagging n = 0

section

variable {m m' : Simulation} {led : Ledger} {t x : ℕ} {r : Pc}

/-- A thread announces no more than one order. -/
theorem announcedBy_cases (p : Pc) : announcedBy p = [] ∨ ∃ n, announcedBy p = [n] := by
  unfold announcedBy
  cases p.bagging with
  | none => exact Or.inl rfl
  | some q => cases q <;> first | exact Or.inl rfl | exact Or.inr ⟨_, rfl⟩

theorem token_of_hand {p : Pc} {n : ℕ} (h : p.hand = some n) : p.token = some n := by
  have hq {q : BagAt} (hq : q.hand = some n) : q.token = some n := by
    cases q
    case scan i j => cases j <;> exact hq
    all_goals first | exact hq | cases hq
  cases p with
  | manager p => cases p <;> first | exact hq h | cases h
  | orderTaker p => cases p <;> first | exact hq h | cases h
  | _ => cases h

namespace Bags

/-- The order of the call is announced. -/
theorem announces (h : Bags m.shared led) (hbaggers : Baggers m led) (hbase : OrderedInv m)
    (hr : m.pc t = some r) :
    Bags m.shared ⟨led.cooked, led.bagged, led.announced ++ announcedBy r⟩ := by
  rcases announcedBy_cases r with hnone | ⟨n, hn⟩
  · refine h.of_same rfl rfl rfl ?_
    show led.announced ++ announcedBy r = led.announced
    rw [hnone, List.append_nil]
  · have hmem : n ∈ announcedBy r := by
      rw [hn]
      exact List.mem_singleton_self n
    have hhand := hand_of_announced hmem
    have hentered := hbase.tokens.inHand t r n hr (token_of_hand hhand)
    have hnew := (hbaggers.hand t r n hr hhand).1
    refine h.announce hentered (hbaggers.whole t r n hr hmem) hnew rfl ?_
    show led.announced ++ announcedBy r = led.announced ++ [n]
    rw [hn]

/-- **The bags** after a call. -/
theorem after_call (h : Bags m.shared led) (hbaggers : Baggers m led) (hbase : OrderedInv m)
    (hr : m.pc t = some r) (ht : m.status t = .ready) (x : ℕ) :
    Bags (program r x m.shared).shared (led.note r (program r x m.shared)) := by
  have hfood := foodStep_program r x m.shared
  have hknows := hbase.orders.knows hbase.sessions hr ht
  have hbags := h.announces hbaggers hbase hr
  generalize program r x m.shared = a at hfood ⊢
  -- nothing goes into a bag
  have hnothing (hpc : a.pc.hand = none) : led.bagged ++ baggedBy a.pc = led.bagged := by
    rw [bagged_of_hand hpc, List.append_nil]
  cases hfood with
  | none hnone =>
    exact hbags.of_same hnone.same.orders hnone.same.entered (hnothing hnone.pc.hand) rfl
  | supply i money hp hpc hop hshared =>
    rw [hshared]
    exact hbags.of_same rfl rfl (hnothing hpc.hand) rfl
  | look i hp hthere ha =>
    subst ha
    exact hbags.of_same rfl rfl (hnothing rfl) rfl
  | fetch i hp hpc hop hshared =>
    rw [hshared]
    exact hbags.of_same rfl rfl (hnothing hpc.hand) rfl
  | put i hp hpc hop hshared =>
    rw [hshared]
    exact hbags.of_same rfl rfl (hnothing hpc.hand) rfl
  | item n j hp hj hneeded hcooked hpc hop hshared =>
    have hentered : Entered m.shared n := by
      apply hbase.orders.books.bagging n
      intro hzero
      rw [hzero, Nat.zero_testBit] at hneeded
      cases hneeded
    rw [hshared]
    refine hbags.item hentered hj hneeded ?_ rfl
    show led.bagged ++ baggedBy a.pc = led.bagged ++ [(n, j)]
    rw [baggedBy, hpc]
    rfl
  | whole n hp hopen hwhole hpc hop hshared =>
    rw [hshared]
    refine hbags.complete hwhole ?_ rfl
    show led.bagged ++ baggedBy a.pc = led.bagged
    rw [baggedBy]
    rcases hpc with hpc | hpc <;> (rw [hpc]; exact List.append_nil _)
  | enter k i n hserving hpc hop hshared =>
    obtain ⟨p, hdeal⟩ := hknows.serving k _ i hserving rfl
    have hnew : ∀ c, (n, c) ∉ m.shared.history.entered := hdeal.2.2.1
    rw [hshared]
    exact hbags.enter hnew _ rfl rfl (hnothing hpc.hand) rfl

end Bags

namespace Baggers

/-- Two threads do not both have an order in hand. -/
theorem unique (h : Baggers m led) (hbase : OrderedInv m) {u v n n' : ℕ} {p q : Pc}
    (hu : m.pc u = some p) (hp : p.hand = some n) (hv : m.pc v = some q) (hq : q.hand = some n') :
    u = v :=
  hbase.owns.unique ⟨p, hu, mayHold_of_hand hp⟩ ⟨q, hv, mayHold_of_hand hq⟩ (h.hand u p n hu hp).2
    (h.hand v q n' hv hq).2

/-- **Who bags**, after a call. -/
theorem after_call (h : Baggers m led) (hbags : Bags m.shared led) (hbase : OrderedInv m)
    (hr : m.pc t = some r) (ht : m.status t = .ready) (x : ℕ) :
    Baggers (after m t (program r x m.shared)) (led.note r (program r x m.shared)) := by
  have hfood := foodStep_program r x m.shared
  have hknows := hbase.orders.knows hbase.sessions hr ht
  have hok := hbase.sessions.ok
  have hshared : (after m t (program r x m.shared)).shared = (program r x m.shared).shared :=
    Machine.shared_perform _ t _
  have hok' := hok.compute (by simp [hr] : m.pc t ≠ none) (program r x m.shared).shared
    (program r x m.shared).pc
  constructor
  · intro u p n hu hp
    have hblocks (hold : ¬ (m.status u).Blocks .ordersNeedingBagging)
        (hop : u = t → (program r x m.shared).op ≠ .acquire .ordersNeedingBagging ∧
          ∀ c, (program r x m.shared).op ≠ .wait c .ordersNeedingBagging) :
        ¬ ((after m t (program r x m.shared)).status u).Blocks .ordersNeedingBagging := by
      intro hb
      rcases Machine.blocks_perform hok' ht hb with hb | ⟨hut, hcall | ⟨c, hcall⟩⟩
      · exact hold hb
      · exact (hop hut).1 hcall
      · exact (hop hut).2 c hcall
    have hmem (hold : n ∉ led.announced) (hnew : n ∉ announcedBy r) :
        n ∉ (led.note r (program r x m.shared)).announced := by
      show n ∉ led.announced ++ announcedBy r
      rw [List.mem_append]
      rintro (hin | hin)
      · exact hold hin
      · exact hnew hin
    rcases Machine.pc_computed hok hu with ⟨rfl, heq⟩ | ⟨hne, hold⟩ | ⟨-, hfork⟩
    · subst heq
      obtain ⟨hannounced, hhad, hacquire, hwait⟩ := hfood.hand hp
      refine ⟨hmem ?_ ?_, hblocks ?_ fun _ => ⟨hacquire, hwait⟩⟩
      · rcases hhad with hopen | hhand
        · exact fun hin => hopen (hbags.announced_whole n hin)
        · exact (h.hand u r n hr hhand).1
      · rw [hannounced]
        exact List.not_mem_nil
      · rw [ht]
        exact id
    · obtain ⟨hnew, hfree⟩ := h.hand u p n hold hp
      refine ⟨hmem hnew ?_, hblocks hfree fun hut => absurd hut hne⟩
      intro hin
      exact hne (h.unique hbase hold hp hr (hand_of_announced hin))
    · have hnone := hfood.forks hfork
      rw [hp] at hnone
      cases hnone
  · intro u p n hu hn
    rw [hshared]
    rcases Machine.pc_computed hok hu with ⟨rfl, heq⟩ | ⟨hne, hold⟩ | ⟨-, hfork⟩
    · subst heq
      exact hfood.announces hn
    · have hwhole := h.whole u p n hold hn
      have hhand := hand_of_announced hn
      generalize program r x m.shared = a at hfood ⊢
      cases hfood with
      | none hnone => rwa [hnone.same.orders]
      | supply i money hp hpc hop hshared => rwa [hshared]
      | look i hp hthere ha => rwa [ha]
      | fetch i hp hpc hop hshared => rwa [hshared]
      | put i hp hpc hop hshared => rwa [hshared]
      | item n' j hp hj hneeded hcooked hpc hop hshared =>
        have hother : n ≠ n' := by
          rintro rfl
          rw [hwhole, Nat.zero_testBit] at hneeded
          cases hneeded
        rw [hshared]
        exact (Function.update_of_ne hother _ _).trans hwhole
      | whole n' hp hopen hbagged hpc hop hshared =>
        rw [hshared]
        show Function.update m.shared.ordersNeedingBagging n' 0 n = 0
        by_cases hother : n = n'
        · rw [hother, Function.update_self]
        · rwa [Function.update_of_ne hother]
      | enter k i n' hserving hpc hop hshared =>
        obtain ⟨stage, hdeal⟩ := hknows.serving k _ i hserving rfl
        have hnew : ∀ c, (n', c) ∉ m.shared.history.entered := hdeal.2.2.1
        have hother : n ≠ n' := by
          rintro rfl
          obtain ⟨c, hc⟩ := hbase.tokens.inHand u p n hold (token_of_hand hhand)
          exact hnew c hc
        rw [hshared]
        exact (Function.update_of_ne hother _ _).trans hwhole
    · have hnone := hfood.forks hfork
      rw [hand_of_announced hn] at hnone
      cases hnone

/-- A step in which no thread goes on. -/
theorem of_same (h : Baggers m led) (hsame : Same m m') : Baggers m' led := by
  constructor
  · intro u p n hu hp
    rw [hsame.pc] at hu
    obtain ⟨hnew, hfree⟩ := h.hand u p n hu hp
    exact ⟨hnew, fun hb => hfree (hsame.blocks u _ hb)⟩
  · intro u p n hu hn
    rw [hsame.pc] at hu
    rw [hsame.shared]
    exact h.whole u p n hu hn

end Baggers

/-! ## Runs -/

/-- **The food** of a run. -/
structure FoodInv (m : Simulation) (led : Ledger) : Prop where
  ordered : OrderedInv m
  kitchen : Kitchen m led
  bags : Bags m.shared led
  baggers : Baggers m led

namespace FoodInv

/-- **One step.** -/
theorem step (h : FoodInv m led) (hs : ledgerStep (m, led) (t, x) = .ok (m', led')) :
    FoodInv m' led' := by
  obtain ⟨hstep, hcases⟩ := ledgerStep_cases h.ordered.sessions.ok hs
  have hordered := h.ordered.step hstep
  rcases hcases with ⟨r, hr, ht, rfl, rfl⟩ | ⟨hsame, rfl⟩
  · refine ⟨hordered, h.kitchen.after_call h.ordered hr ht x, ?_,
      h.baggers.after_call h.bags h.ordered hr ht x⟩
    rw [after, Machine.shared_perform]
    exact h.bags.after_call h.baggers h.ordered hr ht x
  · refine ⟨hordered, h.kitchen.of_same hsame, ?_, h.baggers.of_same hsame⟩
    rw [hsame.shared]
    exact h.bags

/-- Nothing has been cooked when the threads are forked. -/
theorem init (routines : List Routine) (target : ℕ) (v : TestVariables) :
    FoodInv (.init (.main routines) (initializeTest target v)) ⟨[], [], []⟩ := by
  have hmain {u : ℕ} {p : Pc}
      (hp : (Machine.init (.main routines) (initializeTest target v) : Simulation).pc u = some p) :
      p = .main routines :=
    Machine.pc_init hp
  refine ⟨OrderedInv.init routines target v, ?_, ?_, ?_⟩
  · refine ⟨fun i => ?_, ?_, fun j => ?_, fun j => rfl⟩
    · show (0 : ℤ) ≤ 0
      omega
    · intro u i hu
      cases hmain hu
    · show (0 : ℤ) ≤ 0
      omega
  · refine ⟨?_, ?_, ?_, ?_, ?_, List.nodup_nil⟩
    · intro n c j hc
      cases hc
    · intro n c j hc
      cases hc
    · intro n j hin
      cases hin
    · intro n hn
      cases hn
    · intro n hn
      cases hn
  · constructor
    · intro u p n hu hp
      rw [hmain hu] at hp
      cases hp
    · intro u p n hu hn
      rw [hmain hu] at hn
      cases hn

/-- **What the invariant says** of the food. -/
theorem conserved (h : FoodInv m led) : FoodConserved m.shared led := by
  refine ⟨fun j _ => h.kitchen.conserved j, h.kitchen.cookedFood, h.kitchen.inventory, h.bags.once,
    ?_⟩
  intro n hn
  have hbooks := h.ordered.orders.books
  obtain ⟨choice, hentered⟩ := h.bags.announced_entered n hn
  obtain ⟨i, eatIn, hnumbered, hordered, -⟩ := hbooks.entered_order n choice hentered
  refine ⟨i, choice, eatIn, hnumbered, hordered, ?_⟩
  intro j hj
  rw [h.bags.bagged n choice j hentered hj, h.bags.announced_whole n hn]
  simp

end FoodInv

end

/-- **Food is conserved** in every run, with any number of threads of each kind, and each order is
    announced once, with all of its food in its bag. -/
theorem food_conserved (routines : List Routine) (target : ℕ) (v : TestVariables)
    (events : List (ℕ × ℕ)) (m : Simulation) (led : Ledger)
    (h : exec ledgerStep (.init (.main routines) (initializeTest target v), ⟨[], [], []⟩) events =
      .ok (m, led)) :
    FoodConserved m.shared led :=
  have hstep (ml : Simulation × Ledger) (tx : ℕ × ℕ) (ml' : Simulation × Ledger)
      (hm : FoodInv ml.1 ml.2) (hs : ledgerStep ml tx = .ok ml') : FoodInv ml'.1 ml'.2 :=
    hm.step hs
  (exec_preserves hstep (FoodInv.init routines target v) h).conserved

/-- The steps that each thread takes in turn until an order of one burger is announced. -/
def burger : List (ℕ × ℕ) :=
  [(3, 0), (4, 2), (5, 1), (1, 2), (2, 1), (1, 2), (1, 1), (4, 2), (2, 1), (1, 2), (1, 1), (2, 2),
    (3, 1), (1, 2), (4, 1), (1, 2), (36, 3), (1, 4), (1, 3), (3, 4), (3, 3), (4, 4), (4, 1)].flatMap
    fun (k, t) => List.replicate k (t, 0)

/-- A cook puts a burger on its stack, and the order taker puts it into the bag. -/
theorem food_conserved_burger : ∃ (m : Simulation) (led : Ledger),
    exec ledgerStep (.init (.main [.orderTaker, .customer, .manager])
      (initializeTest 1 ⟨10, false, true, false, some 1⟩), ⟨[], [], []⟩) burger =
        .ok (m, led) ∧
      led.cooked = [1] ∧ led.bagged = [(0, 1)] ∧ led.announced = [0] ∧
        FoodConserved m.shared led := by
  have hrun : Ends ledgerStep (.init (.main [.orderTaker, .customer, .manager])
      (initializeTest 1 ⟨10, false, true, false, some 1⟩), ⟨[], [], []⟩) burger
      fun ml => ml.2.cooked = [1] ∧ ml.2.bagged = [(0, 1)] ∧ ml.2.announced = [0] := by
    decide +kernel
  obtain ⟨⟨m, led⟩, h, hcooked, hbagged, hannounced⟩ := hrun
  exact ⟨m, led, h, hcooked, hbagged, hannounced, food_conserved _ _ _ _ m led h⟩

end Nachos.Restaurant
