import Nachos.Restaurant.Meeting

/-!
# Orders in progress

Whoever is called to order is in a meeting with one order taker, who serves nobody else.

* `Sessions.step`: the meetings go on, one at each order taker and one for each customer.
-/

namespace Nachos.Restaurant

open Nachos.Lib Nachos.Threads

/-- **An order in progress**: the thread `S` is the order taker `k`, and takes the order of the
    customer `i`, which is the thread `C`. -/
structure Session (m : Simulation) (i S C k : ℕ) (q : ServiceAt) (p : CustomerAt)
    (eatIn : Bool) : Prop where
  service_pc : ∃ r, m.pc S = some r ∧ r.serving = some (k, q)
  customer_pc : m.pc C = some (.customer p)
  orderTakerID : m.shared.getOrderTakerIDFromCustomerID i = k
  meeting : Meeting i k eatIn q (m.status S) p (m.status C)

/-- **The orders in progress**, and the line of those who want to order. -/
structure Sessions (m : Simulation) : Prop where
  ok : m.Ok
  owns : m.Owns (m.Has holds)
  customers : m.Numbered Pc.customerID (·.countNumCustomers)
  orderTakers : m.Numbered Pc.orderTakerID (·.countNumOrderTakers)
  waits : ∀ u r c l, m.pc u = some r → m.status u = .waiting c l → MayWait m.shared c l r
  broadcasts : ∀ u c l, m.status u = .broadcasting c l → c.Foreign
  line : ∀ n < m.shared.countLineToOrderFoodLength, ∃ C eatIn,
    m.pc C = some (.customer (.called (m.shared.lineToOrderFood n) eatIn)) ∧
      m.status C = .waiting (.lineToOrderFood (m.shared.lineToOrderFood n)) .lineToOrderFood
  line_inj : ∀ a b, a < m.shared.countLineToOrderFoodLength →
    b < m.shared.countLineToOrderFoodLength →
    m.shared.lineToOrderFood a = m.shared.lineToOrderFood b → a = b
  served : ∀ S r k q i, m.pc S = some r → r.serving = some (k, q) → q.custID = some i →
    ∃ C p eatIn, Session m i S C k q p eatIn
  engaged : ∀ C p i, m.pc C = some (.customer p) → p.id = some i →
    (Pc.customer p).Engaged (m.status C) → ∃ S k q eatIn, Session m i S C k q p eatIn
  one : ∀ S S' r r' k k' q q' i, m.pc S = some r → m.pc S' = some r' →
    r.serving = some (k, q) → r'.serving = some (k', q') → q.custID = some i →
    q'.custID = some i → S = S'

/-! ## At one time -/

theorem orderTakerID_of_serving {r : Pc} {k : ℕ} {q : ServiceAt} (h : r.serving = some (k, q)) :
    r.orderTakerID = some k := by
  cases r with
  | manager p => cases p <;> cases h; rfl
  | orderTaker p => cases p <;> cases h; rfl
  | _ => cases h

/-- Who waits on the condition of an order taker. -/
theorem mayWait_orderTakerBusy {s : Shared} {k : ℕ} {l : LockName} {r : Pc}
    (h : MayWait s (.orderTakerBusy k) l r) : l = .orderTakerBusy k ∧
      ((∃ q, r.serving = some (k, q)) ∨ ∃ i eatIn, s.getOrderTakerIDFromCustomerID i = k ∧
        (r = .customer (.pay i eatIn) ∨ r = .customer (.getToken i eatIn))) := by
  cases hserving : r.serving with
  | some kq =>
    obtain ⟨k', q⟩ := kq
    rw [mayWait_of_serving hserving] at h
    unfold ServiceAt.MayWait at h
    split at h
    · cases h.1
      exact ⟨h.2, Or.inl ⟨_, rfl⟩⟩
    · cases h.1
      exact ⟨h.2, Or.inl ⟨_, rfl⟩⟩
    · exact h.elim
  | none =>
    unfold MayWait at h
    split at h
    · cases h.1
    · cases h.1
      exact ⟨h.2, Or.inr ⟨_, _, rfl, Or.inl rfl⟩⟩
    · cases h.1
      exact ⟨h.2, Or.inr ⟨_, _, rfl, Or.inr rfl⟩⟩
    · cases hserving
    · cases hserving
    · exact h.elim

/-- Who waits for the call of a customer. -/
theorem mayWait_lineToOrderFood {s : Shared} {j : ℕ} {l : LockName} {r : Pc}
    (h : MayWait s (.lineToOrderFood j) l r) : ∃ eatIn, r = .customer (.called j eatIn) := by
  cases hserving : r.serving with
  | some kq =>
    rw [mayWait_of_serving (k := kq.1) (q := kq.2) hserving] at h
    unfold ServiceAt.MayWait at h
    split at h
    · cases h.1
    · cases h.1
    · exact h.elim
  | none =>
    unfold MayWait at h
    split at h
    · cases h.1
      exact ⟨_, rfl⟩
    · cases h.1
    · cases h.1
    · cases hserving
    · cases hserving
    · exact h.elim

section

variable {m : Simulation} {i S C k : ℕ} {q : ServiceAt} {p : CustomerAt} {eatIn : Bool}

namespace Session

theorem ne (h : Session m i S C k q p eatIn) : C ≠ S := by
  rintro rfl
  obtain ⟨r, hr, hserving⟩ := h.service_pc
  rw [h.customer_pc] at hr
  cases hr
  cases hserving

/-- The customer is known by its number. -/
theorem eq_customer (h : Session m i S C k q p eatIn) (hm : Sessions m) {C' : ℕ} {p' : CustomerAt}
    (hC' : m.pc C' = some (.customer p')) (hi : p'.id = some i) : C' = C :=
  hm.customers.unique C' C _ _ i hC' h.customer_pc hi h.meeting.id

/-- The order taker is known by its number. -/
theorem eq_orderTaker (h : Session m i S C k q p eatIn) (hm : Sessions m) {S' : ℕ} {r' : Pc}
    (hS' : m.pc S' = some r') (hk : r'.orderTakerID = some k) : S' = S := by
  obtain ⟨r, hr, hserving⟩ := h.service_pc
  exact hm.orderTakers.unique S' S _ _ k hS' hr hk (orderTakerID_of_serving hserving)

theorem service_eq (h : Session m i S C k q p eatIn) {r' : Pc} {k' : ℕ} {q' : ServiceAt}
    (hS : m.pc S = some r') (hserving : r'.serving = some (k', q')) : k' = k ∧ q' = q := by
  obtain ⟨r, hr, hserving₀⟩ := h.service_pc
  rw [hr] at hS
  cases hS
  rw [hserving₀] at hserving
  cases hserving
  exact ⟨rfl, rfl⟩

/-- An order taker has one customer at a time. -/
theorem eq_of_same (h : Session m i S C k q p eatIn) {i' C' k' : ℕ} {q' : ServiceAt}
    {p' : CustomerAt} {eatIn' : Bool} (h' : Session m i' S C' k' q' p' eatIn') : i = i' := by
  obtain ⟨r, hr, hserving⟩ := h.service_pc
  obtain ⟨r', hr', hserving'⟩ := h'.service_pc
  rw [hr] at hr'
  cases hr'
  rw [hserving] at hserving'
  cases hserving'
  have hi := h.meeting.custID
  rw [h'.meeting.custID] at hi
  exact (Option.some_injective _ hi).symm

/-- Who waits for one of the two. -/
theorem onlyWait (h : Session m i S C k q p eatIn) (hm : Sessions m) :
    Meeting.OnlyWait m S C k := by
  intro u l hu
  cases hr : m.pc u with
  | none =>
    rw [hm.ok.idle u hr] at hu
    cases hu
  | some r =>
    obtain ⟨hl, hwho⟩ := mayWait_orderTakerBusy (hm.waits u r _ l hr hu)
    refine ⟨?_, hl⟩
    rcases hwho with ⟨q', hserving⟩ | ⟨i', eatIn', hk, hcustomer⟩
    · exact Or.inl (h.eq_orderTaker hm hr (orderTakerID_of_serving hserving))
    · right
      have hsession : ∃ S' q' p' eatIn', Session m i' S' u k q' p' eatIn' := by
        rcases hcustomer with rfl | rfl
        · obtain ⟨S', k', q', e, hs⟩ := hm.engaged u _ i' hr rfl trivial
          exact ⟨S', q', _, e, by rwa [← hk, hs.orderTakerID]⟩
        · obtain ⟨S', k', q', e, hs⟩ := hm.engaged u _ i' hr rfl ⟨_, _, hu⟩
          exact ⟨S', q', _, e, by rwa [← hk, hs.orderTakerID]⟩
      obtain ⟨S', q', p', e, hs⟩ := hsession
      obtain ⟨r', hr', hserving'⟩ := hs.service_pc
      have hS' := h.eq_orderTaker hm hr' (orderTakerID_of_serving hserving')
      subst hS'
      have hi := h.eq_of_same hs
      subst hi
      exact h.eq_customer hm hs.customer_pc hs.meeting.id

end Session

/-- **Who is in the line** is not served yet. -/
theorem Sessions.not_in_line (hm : Sessions m) (h : Session m i S C k q p eatIn) {n : ℕ}
    (hn : n < m.shared.countLineToOrderFoodLength) : m.shared.lineToOrderFood n ≠ i := by
  rintro rfl
  obtain ⟨C', eatIn', hC', hst⟩ := hm.line n hn
  have hC := h.eq_customer hm hC' rfl
  subst hC
  have hp := h.customer_pc
  rw [hC'] at hp
  cases hp
  have hmeet := h.meeting
  rw [hst] at hmeet
  generalize m.status S = sst at hmeet
  cases hmeet with
  | chosen h => rcases h with h | h <;> cases h
  | acquired hs h => rcases h with h | h <;> cases h
  | ask h => rcases h with (h | h) | h <;> cases h
  | called h => rcases h with (h | h) | h <;> cases h

end

/-! ## Points of the program -/

/-- The order taker `k` is about to call the customer `j`, the last one in the line. -/
def Pops (s : Shared) (r : Pc) (k j : ℕ) : Prop :=
  r.serving = some (k, .look) ∧ s.countLineToOrderFoodLength ≠ 0 ∧
    j = s.lineToOrderFood (s.countLineToOrderFoodLength - 1)

/-- What it does then. -/
theorem program_pops {s : Shared} {r : Pc} {k j : ℕ} (h : Pops s r k j) (x : ℕ) :
    (program r x s).op = .signal (.lineToOrderFood j) .lineToOrderFood ∧
      (program r x s).pc.serving = some (k, .chosen j) ∧
      (program r x s).shared = { s with
        countLineToOrderFoodLength := s.countLineToOrderFoodLength - 1
        getOrderTakerIDFromCustomerID := Function.update s.getOrderTakerIDFromCustomerID j k } := by
  obtain ⟨hserving, hlen, rfl⟩ := h
  obtain ⟨f, hprogram, hf⟩ := program_serving hserving x s
  rw [hprogram]
  simp only [serviceCustomer, if_neg hlen]
  exact ⟨rfl, hf.goesOn _, rfl⟩

theorem point_cases (r : Pc) (x : ℕ) (s : Shared) :
    (∃ k q f, r.serving = some (k, q) ∧ program r x s = (serviceCustomer k s q).map f ∧
        ServesOn k f) ∨
      (∃ p, r = .customer p ∧ (Pc.customer p).Orders) ∨
      r.serving = none ∧ ¬ r.Orders ∧ Aside s (program r x s) := by
  cases hserving : r.serving with
  | some kq =>
    obtain ⟨f, hprogram, hf⟩ := program_serving hserving x s
    exact Or.inl ⟨kq.1, kq.2, f, rfl, hprogram, hf⟩
  | none =>
    right
    by_cases horders : r.Orders
    · cases r with
      | customer p => exact Or.inl ⟨p, rfl, horders⟩
      | _ => exact horders.elim
    · exact Or.inr ⟨rfl, horders, aside_program hserving horders x s⟩

/-- Only an order taker who calls a customer leaves its number to it. -/
theorem orderTakerID_program (r : Pc) (x : ℕ) (s : Shared) (j : ℕ) :
    (program r x s).shared.getOrderTakerIDFromCustomerID j =
        s.getOrderTakerIDFromCustomerID j ∨ ∃ k, Pops s r k j := by
  rcases point_cases r x s with ⟨k, q, f, hserving, hprogram, -⟩ | ⟨p, rfl, horders⟩ |
    ⟨-, -, haside⟩
  · rw [hprogram]
    cases q
    case look =>
      simp only [serviceCustomer]
      split_ifs with hlen
      · exact Or.inl rfl
      · by_cases hj : j = s.lineToOrderFood (s.countLineToOrderFoodLength - 1)
        · exact Or.inr ⟨k, hserving, hlen, hj⟩
        · exact Or.inl (Function.update_of_ne hj _ _)
    case paid i =>
      simp only [serviceCustomer]
      split_ifs <;> exact Or.inl rfl
    all_goals exact Or.inl rfl
  · cases p
    case getToken i eatIn =>
      simp only [program, customer]
      split_ifs <;> exact Or.inl rfl
    all_goals first
      | exact horders.elim
      | exact Or.inl rfl
  · exact Or.inl (congrFun haside.same.orderTakerID j)

/-- A thread changes the line only to call the last one in it, or to join it. -/
theorem line_program (r : Pc) (x : ℕ) (s : Shared) :
    ((program r x s).shared.countLineToOrderFoodLength = s.countLineToOrderFoodLength ∧
        (program r x s).shared.lineToOrderFood = s.lineToOrderFood ∧ ∀ k j, ¬ Pops s r k j) ∨
      (∃ k j, Pops s r k j) ∨ ∃ i eatIn, r = .customer (.joinLineToOrder i eatIn) := by
  rcases point_cases r x s with ⟨k, q, f, hserving, hprogram, -⟩ | ⟨p, rfl, horders⟩ |
    ⟨hserving, -, haside⟩
  · rw [hprogram]
    have hpops (hq : q ≠ .look) (k' j : ℕ) : ¬ Pops s r k' j := by
      rintro ⟨hserving', -⟩
      rw [hserving] at hserving'
      cases hserving'
      exact hq rfl
    cases q
    case look =>
      by_cases hlen : s.countLineToOrderFoodLength = 0
      · left
        simp only [serviceCustomer, if_pos hlen]
        exact ⟨rfl, rfl, fun k' j h => h.2.1 hlen⟩
      · exact Or.inr (Or.inl ⟨k, _, hserving, hlen, rfl⟩)
    case paid i =>
      left
      simp only [serviceCustomer]
      split_ifs <;> exact ⟨rfl, rfl, hpops (by simp)⟩
    all_goals exact Or.inl ⟨rfl, rfl, hpops (by simp)⟩
  · have hpops (k j : ℕ) : ¬ Pops s (.customer p) k j := by
      rintro ⟨hserving, -⟩
      cases hserving
    cases p
    case joinLineToOrder i eatIn => exact Or.inr (Or.inr ⟨i, eatIn, rfl⟩)
    case getToken i eatIn =>
      left
      simp only [program, customer]
      split_ifs <;> exact ⟨rfl, rfl, hpops⟩
    all_goals first
      | exact horders.elim
      | exact Or.inl ⟨rfl, rfl, hpops⟩
  · refine Or.inl ⟨haside.same.length, haside.same.line, ?_⟩
    rintro k j ⟨hserving', -⟩
    cases hserving.symm.trans hserving'

/-- Whom a thread wakes for an order. -/
theorem signal_program {r : Pc} {x : ℕ} {s : Shared} {c : CVName} {l : LockName}
    (h : (program r x s).op = .signal c l) :
    c.Foreign ∨ (∃ k j, Pops s r k j ∧ c = .lineToOrderFood j) ∨
      (∃ k q i, r.serving = some (k, q) ∧ q.custID = some i ∧ c = .orderTakerBusy k) ∨
      ∃ i eatIn, (r = .customer (.ordered i eatIn) ∨ r = .customer (.pay i eatIn)) ∧
        c = .orderTakerBusy (s.getOrderTakerIDFromCustomerID i) := by
  rcases point_cases r x s with ⟨k, q, f, hserving, hprogram, -⟩ | ⟨p, rfl, horders⟩ |
    ⟨-, -, haside⟩
  · rw [hprogram] at h
    right
    cases q
    case look =>
      simp only [serviceCustomer] at h
      split_ifs at h with hlen
      · cases h
      · cases h
        exact Or.inl ⟨k, _, ⟨hserving, hlen, rfl⟩, rfl⟩
    case paid i =>
      simp only [serviceCustomer] at h
      split_ifs at h
      · cases h
      · cases h
        exact Or.inr (Or.inl ⟨k, _, i, hserving, rfl, rfl⟩)
    all_goals cases h
    · exact Or.inr (Or.inl ⟨k, _, _, hserving, rfl, rfl⟩)
    · exact Or.inr (Or.inl ⟨k, _, _, hserving, rfl, rfl⟩)
  · right; right; right
    cases p
    case ordered i eatIn =>
      cases h
      exact ⟨i, eatIn, Or.inl rfl, rfl⟩
    case pay i eatIn =>
      cases h
      exact ⟨i, eatIn, Or.inr rfl, rfl⟩
    case getToken i eatIn =>
      simp only [program, customer] at h
      split_ifs at h <;> cases h
    all_goals first
      | exact horders.elim
      | cases h
  · have hcall := haside.call
    rw [h] at hcall
    exact Or.inl hcall

theorem broadcast_program {r : Pc} {x : ℕ} {s : Shared} {c : CVName} {l : LockName}
    (h : (program r x s).op = .broadcast c l) : c.Foreign := by
  rcases point_cases r x s with ⟨k, q, f, hserving, hprogram, -⟩ | ⟨p, rfl, horders⟩ |
    ⟨-, -, haside⟩
  · rw [hprogram] at h
    cases q
    all_goals
      simp only [serviceCustomer] at h
      try split_ifs at h
    all_goals cases h
  · cases p
    case getToken i eatIn =>
      simp only [program, customer] at h
      split_ifs at h <;> cases h
    all_goals first
      | exact horders.elim
      | cases h
  · have hcall := haside.call
    rwa [h] at hcall

theorem fork_program {r r' : Pc} {x : ℕ} {s : Shared} (h : (program r x s).op = .fork r') :
    r'.serving = none ∧ r'.customerID = none := by
  refine ⟨?_, (takes_customer r x s).2 r' h⟩
  cases hserving : r'.serving with
  | none => rfl
  | some kq =>
    have hnone := (takes_orderTaker r x s).2 r' h
    rw [orderTakerID_of_serving (k := kq.1) (q := kq.2) hserving] at hnone
    cases hnone

/-! ## One order in progress -/

/-- The locks of a customer depend on its own order taker. -/
theorem CustomerAt.holds_congr {p : CustomerAt} {f g : ℕ → ℕ} {l : LockName}
    (hfg : ∀ i, p.id = some i → (∀ eatIn, p ≠ .called i eatIn) → f i = g i)
    (h : p.Holds f l) : p.Holds g l := by
  cases p
  case meet i eatIn =>
    have heq := hfg i rfl nofun
    exact h.imp_right fun hl => hl.trans (congrArg _ heq)
  case order i eatIn => exact h.trans (congrArg _ (hfg i rfl nofun))
  case ordered i eatIn => exact h.trans (congrArg _ (hfg i rfl nofun))
  case awaitResponse i eatIn => exact h.trans (congrArg _ (hfg i rfl nofun))
  case pay i eatIn => exact h.trans (congrArg _ (hfg i rfl nofun))
  case paid i eatIn => exact h.trans (congrArg _ (hfg i rfl nofun))
  case getToken i eatIn => exact h.trans (congrArg _ (hfg i rfl nofun))
  case prepare i eatIn token => exact h.trans (congrArg _ (hfg i rfl nofun))
  case sit i token => exact h.trans (congrArg _ (hfg i rfl nofun))
  case stand i token => exact h.trans (congrArg _ (hfg i rfl nofun))
  all_goals exact h

theorem Meeting.waiting_orderTaker {i k : ℕ} {eatIn : Bool} {q : ServiceAt} {sst st : Stat}
    {p : CustomerAt} (h : Meeting i k eatIn q sst p st) {c : CVName} {l : LockName}
    (hc : sst = .waiting c l ∨ st = .waiting c l) : c = .orderTakerBusy k := by
  have hlate {k : LockName} {st : Stat} (h : Late k st) : st ≠ .waiting c l := by
    rintro rfl
    rcases h with h | h <;> cases h
  have hnear {k : LockName} {st : Stat} (h : Near k st) : st ≠ .waiting c l := by
    rintro rfl
    rcases h with h | h <;> cases h
  have hlater {k : LockName} {st : Stat} (h : Late k st ∨ st = .ready) : st ≠ .waiting c l := by
    rintro rfl
    rcases h with h | h
    · exact hlate h rfl
    · cases h
  cases h with
  | chosen h => exact (hc.elim nofun (hlate h)).elim
  | acquired hs h => exact (hc.elim (hnear hs) (hlate h)).elim
  | ask h => exact (hc.elim nofun (hlater h)).elim
  | askMeet => rcases hc with hc | hc <;> cases hc
  | called h => cases hc.resolve_right (hlater h); rfl
  | meet h => cases hc.resolve_right (hnear h); rfl
  | order => cases hc.resolve_right nofun; rfl
  | ordered => cases hc.resolve_right nofun; rfl
  | awaitResponse hs => exact (hc.elim (hlate hs) nofun).elim
  | respond hs => cases hc.resolve_left (hlater hs); rfl
  | responded h => exact (hc.elim nofun (hlate h)).elim
  | pay h => cases hc.resolve_right (hlater h); rfl
  | paid hs => exact (hc.elim (hlate hs) nofun).elim
  | number hs => cases hc.resolve_left (hlater hs); rfl
  | numbered token => cases hc.resolve_left nofun; rfl
  | told token h => exact (hc.elim nofun (hlate h)).elim
  | add token hs h => exact (hc.elim (hnear hs) (hlate h)).elim
  | added token h => exact (hc.elim nofun (hlate h)).elim
  | leave token h => exact (hc.elim nofun (hlate h)).elim

theorem Meeting.not_broadcasting {i k : ℕ} {eatIn : Bool} {q : ServiceAt} {sst st : Stat}
    {p : CustomerAt} (h : Meeting i k eatIn q sst p st) :
    (∀ c l, sst ≠ .broadcasting c l) ∧ ∀ c l, st ≠ .broadcasting c l := by
  have hlate {k : LockName} {st : Stat} (h : Late k st) (c : CVName) (l : LockName) :
      st ≠ .broadcasting c l := by
    rintro rfl
    rcases h with h | h <;> cases h
  have hnear {k : LockName} {st : Stat} (h : Near k st) (c : CVName) (l : LockName) :
      st ≠ .broadcasting c l := by
    rintro rfl
    rcases h with h | h <;> cases h
  have hlater {k : LockName} {st : Stat} (h : Late k st ∨ st = .ready) (c : CVName)
      (l : LockName) : st ≠ .broadcasting c l := by
    rintro rfl
    rcases h with (h | h) | h <;> cases h
  cases h with
  | chosen h => exact ⟨nofun, hlate h⟩
  | acquired hs h => exact ⟨hnear hs, hlate h⟩
  | ask h => exact ⟨nofun, hlater h⟩
  | askMeet => exact ⟨nofun, nofun⟩
  | called h => exact ⟨nofun, hlater h⟩
  | meet h => exact ⟨nofun, hnear h⟩
  | order => exact ⟨nofun, nofun⟩
  | ordered => exact ⟨nofun, nofun⟩
  | awaitResponse hs => exact ⟨hlate hs, nofun⟩
  | respond hs => exact ⟨hlater hs, nofun⟩
  | responded h => exact ⟨nofun, hlate h⟩
  | pay h => exact ⟨nofun, hlater h⟩
  | paid hs => exact ⟨hlate hs, nofun⟩
  | number hs => exact ⟨hlater hs, nofun⟩
  | numbered token => exact ⟨nofun, nofun⟩
  | told token h => exact ⟨nofun, hlate h⟩
  | add token hs h => exact ⟨hnear hs, hlate h⟩
  | added token h => exact ⟨nofun, hlate h⟩
  | leave token h => exact ⟨nofun, hlate h⟩

/-- An order taker leaves a customer that is about to get its token. -/
theorem Meeting.getToken_of_none {i k k' : ℕ} {eatIn : Bool} {q : ServiceAt} {sst st : Stat}
    {p : CustomerAt} (h : Meeting i k eatIn q sst p st) {s : Shared}
    (hnone : (serviceCustomer k' s q).pc = none) : p = .getToken i eatIn := by
  cases h with
  | leave token h => rfl
  | number hs => rfl
  | _ =>
    simp only [serviceCustomer] at hnone
    try split_ifs at hnone
    all_goals cases hnone

section

variable {m : Simulation} {t : ℕ} {r : Pc}

/-- A customer that is about to be called waits for that. -/
theorem Sessions.popped (hm : Sessions m) {k j : ℕ} (hpops : Pops m.shared r k j) :
    ∃ C eatIn, m.pc C = some (.customer (.called j eatIn)) ∧
      m.status C = .waiting (.lineToOrderFood j) .lineToOrderFood := by
  obtain ⟨-, hlen, rfl⟩ := hpops
  exact hm.line _ (by omega)

/-- Only a customer that waits in the line gets another order taker. -/
theorem Sessions.orderTakerID_stays (hm : Sessions m) {u i : ℕ} {p : CustomerAt}
    (hu : m.pc u = some (.customer p)) (hi : p.id = some i) (hcalled : ∀ e, p ≠ .called i e)
    (r : Pc) (x : ℕ) : (program r x m.shared).shared.getOrderTakerIDFromCustomerID i =
      m.shared.getOrderTakerIDFromCustomerID i := by
  rcases orderTakerID_program r x m.shared i with hsame | ⟨k, hpops⟩
  · exact hsame
  · obtain ⟨C, eatIn, hC, -⟩ := hm.popped hpops
    have huC := hm.customers.unique u C _ _ i hu hC hi rfl
    subst huC
    cases hu.symm.trans hC
    exact absurd rfl (hcalled eatIn)

/-- Who is inside a lock still owns it. -/
theorem Sessions.owns_after (hm : Sessions m) (hr : m.pc t = some r) (ht : m.status t = .ready)
    (x : ℕ) : (after m t (program r x m.shared)).Owns
      ((after m t (program r x m.shared)).Has holds) := by
  refine hm.owns.step hm.ok (step_after hr ht x) (fun p _ _ => keeps_program p x m.shared) ?_
  intro p u q l hp _ hut hq hl
  rw [hr] at hp
  cases hp
  cases q with
  | customer cq =>
    refine CustomerAt.holds_congr ?_ hl
    intro i hi hcalled
    exact hm.orderTakerID_stays hq hi hcalled r x
  | manager p => cases p <;> exact hl
  | orderTaker p => cases p <;> exact hl
  | _ => exact hl

namespace Session

variable {i S C k : ℕ} {q : ServiceAt} {p : CustomerAt} {eatIn : Bool}

theorem orderTakerID_after (h : Session m i S C k q p eatIn) (hm : Sessions m) (t x : ℕ)
    (r : Pc) : (after m t (program r x m.shared)).shared.getOrderTakerIDFromCustomerID i = k := by
  rw [Machine.shared_perform]
  rcases orderTakerID_program r x m.shared i with hsame | ⟨k', -, hlen, hi⟩
  · exact hsame.trans h.orderTakerID
  · exact absurd hi.symm (hm.not_in_line h (by omega))

/-- **Another thread** leaves them alone. -/
theorem of_other (h : Session m i S C k q p eatIn) (hm : Sessions m) (hr : m.pc t = some r)
    (ht : m.status t = .ready) (hS : S ≠ t) (hC : C ≠ t) (x : ℕ) :
    Session (after m t (program r x m.shared)) i S C k q p eatIn := by
  have hok := hm.ok.compute (by simp [hr] : m.pc t ≠ none) (program r x m.shared).shared
    (program r x m.shared).pc
  have howns := hm.owns_after hr ht x
  have hid := h.orderTakerID_after hm t x r
  obtain ⟨rS, hrS, hserving⟩ := h.service_pc
  have hpcS := Machine.pc_computed_of_ne hm.ok hS hrS (program r x m.shared)
  have hpcC := Machine.pc_computed_of_ne hm.ok hC h.customer_pc (program r x m.shared)
  -- nobody else signals the two
  have hforeign {c : CVName} {l : LockName}
      (hop : (program r x m.shared).op = .signal c l ∨ (program r x m.shared).op = .broadcast c l)
      (hc : m.status S = .waiting c l ∨ m.status C = .waiting c l) : c.Foreign := by
    rcases hop with hop | hop
    · have hk := h.meeting.waiting_orderTaker hc
      rcases signal_program hop with hforeign | ⟨k', j, -, hj⟩ | ⟨k', q', i', hserving', -, hk'⟩ |
        ⟨i', eatIn', hwho, hk'⟩
      · exact hforeign
      · rw [hk] at hj
        cases hj
      · rw [hk] at hk'
        cases hk'
        exact absurd (h.eq_orderTaker hm hr (orderTakerID_of_serving hserving')).symm hS
      · rw [hk] at hk'
        cases hk'
        have hsession : ∃ S' k' q' p' eatIn', Session m i' S' t k' q' p' eatIn' := by
          rcases hwho with rfl | rfl
          · obtain ⟨S', k', q', e, hs⟩ := hm.engaged t _ i' hr rfl trivial
            exact ⟨S', k', q', _, e, hs⟩
          · obtain ⟨S', k', q', e, hs⟩ := hm.engaged t _ i' hr rfl trivial
            exact ⟨S', k', q', _, e, hs⟩
        obtain ⟨S', k', q', p', e, hs⟩ := hsession
        obtain ⟨rS', hrS', hserving'⟩ := hs.service_pc
        have hS' : S' = S := by
          refine h.eq_orderTaker hm hrS' ?_
          rw [orderTakerID_of_serving hserving', ← hs.orderTakerID]
        subst hS'
        have hi := h.eq_of_same hs
        subst hi
        exact absurd (h.eq_customer hm hs.customer_pc hs.meeting.id).symm hC
    · exact broadcast_program hop
  refine ⟨⟨rS, hpcS, hserving⟩, hpcC, hid, ?_⟩
  refine h.meeting.stir (Meeting.stir_perform hok hS fun c l hop hst => hforeign hop (Or.inl hst))
    (Meeting.stir_perform hok hC fun c l hop hst => hforeign hop (Or.inr hst)) hid ?_
  intro l hqS hblocksS hpC hblocksC
  exact h.ne (howns.unique ⟨_, hpcC, hpC⟩ ⟨_, hpcS, (holds_of_serving hserving l).mpr hqS⟩
    hblocksC hblocksS)

/-- **The order taker** goes on in its order, or leaves. -/
theorem of_service (h : Session m i S C k q p eatIn) (hm : Sessions m) (hr : m.pc S = some r)
    (hS : m.status S = .ready) (x : ℕ) :
    (∃ q', (serviceCustomer k m.shared q).pc = some q' ∧
        Session (after m S (program r x m.shared)) i S C k q' p eatIn) ∨
      (serviceCustomer k m.shared q).pc = none ∧
        ∀ c l, (after m S (program r x m.shared)).status C ≠ .waiting c l := by
  have hok := hm.ok.compute (by simp [hr] : m.pc S ≠ none) (program r x m.shared).shared
    (program r x m.shared).pc
  have hid := h.orderTakerID_after hm S x r
  have hpcS := Machine.pc_computed_self hm.ok (by simp [hr] : m.pc S ≠ none) (program r x m.shared)
  have hpcC := Machine.pc_computed_of_ne hm.ok h.ne h.customer_pc (program r x m.shared)
  obtain ⟨rS, hrS, hserving⟩ := h.service_pc
  rw [hr] at hrS
  cases hrS
  obtain ⟨f, hprogram, hf⟩ := program_serving hserving x m.shared
  have hmeet := Meeting.service hok h.ne h.meeting hS (h.onlyWait hm) m.shared f rfl
  rw [hprogram] at hmeet hid hpcS hpcC ⊢
  rcases hmeet with ⟨q', hq', hmeet⟩ | hleft
  · refine Or.inl ⟨q', hq', ⟨f (some q'), ?_, hf.goesOn q'⟩, hpcC, hid, hmeet⟩
    rw [hpcS]
    exact congrArg (fun q => some (f q)) hq'
  · exact Or.inr hleft

/-- **The customer** goes on in its order. -/
theorem of_customer (h : Session m i S C k q p eatIn) (hm : Sessions m)
    (hC : m.status C = .ready) (x : ℕ) :
    Session (after m C (program (.customer p) x m.shared)) i S C k q (customer x m.shared p).pc
      eatIn := by
  have hok := hm.ok.compute (by simp [h.customer_pc] : m.pc C ≠ none)
    (program (.customer p) x m.shared).shared (program (.customer p) x m.shared).pc
  have hid := h.orderTakerID_after hm C x (.customer p)
  obtain ⟨rS, hrS, hserving⟩ := h.service_pc
  have hpcC := Machine.pc_computed_self hm.ok (by simp [h.customer_pc] : m.pc C ≠ none)
    (program (.customer p) x m.shared)
  have hpcS := Machine.pc_computed_of_ne hm.ok h.ne.symm hrS (program (.customer p) x m.shared)
  refine ⟨⟨rS, hpcS, hserving⟩, hpcC, hid, ?_⟩
  refine Meeting.customer hok h.ne h.meeting hC (h.onlyWait hm) ?_ h.orderTakerID rfl
  rintro rfl
  have hready : m.status S = .ready := by
    have hmeet := h.meeting
    generalize m.status S = sst, m.status C = st at hmeet
    cases hmeet <;> rfl
  refine hm.owns S (.orderTakerBusy k) ⟨rS, hrS, (holds_of_serving hserving _).mpr rfl⟩ ?_
  rw [hready]
  exact not_false

end Session

/-! ## All of them -/

namespace Sessions

variable {x : ℕ}

omit t r in
theorem pc_of_waiting (hm : Sessions m) {u : ℕ} {c : CVName} {l : LockName}
    (hu : m.status u = .waiting c l) : ∃ ru, m.pc u = some ru := by
  cases hru : m.pc u with
  | none =>
    rw [hm.ok.idle u hru] at hu
    cases hu
  | some ru => exact ⟨ru, rfl⟩

omit t r in
/-- All who wait to be called have the same lock. -/
theorem lineToOrderFood_wait (hm : Sessions m) {j : ℕ} (u : ℕ) (l : LockName)
    (hu : m.status u = .waiting (.lineToOrderFood j) l) : l = .lineToOrderFood := by
  obtain ⟨ru, hru⟩ := hm.pc_of_waiting hu
  have hwait := hm.waits u ru _ l hru hu
  obtain ⟨eatIn, rfl⟩ := mayWait_lineToOrderFood hwait
  exact hwait.2

/-- **The customer who is called** meets the order taker. -/
theorem session_of_pops (hm : Sessions m) (hr : m.pc t = some r) (ht : m.status t = .ready)
    {k j : ℕ} (hpops : Pops m.shared r k j) (x : ℕ) :
    ∃ C eatIn, m.pc C = some (.customer (.called j eatIn)) ∧
      Session (after m t (program r x m.shared)) j t C k (.chosen j) (.called j eatIn) eatIn := by
  obtain ⟨C, eatIn, hC, hst⟩ := hm.popped hpops
  obtain ⟨hop, hserving, hshared⟩ := program_pops hpops x
  have hok := hm.ok.compute (by simp [hr] : m.pc t ≠ none) (program r x m.shared).shared
    (program r x m.shared).pc
  have hne : C ≠ t := by
    rintro rfl
    rw [ht] at hst
    cases hst
  have hpct := Machine.pc_computed_self hm.ok (by simp [hr] : m.pc t ≠ none) (program r x m.shared)
  have hpcC := Machine.pc_computed_of_ne hm.ok hne hC (program r x m.shared)
  -- only this customer waits for its call
  have honly (u : ℕ) (l : LockName) (hu : m.status u = .waiting (.lineToOrderFood j) l) :
      u = C := by
    obtain ⟨ru, hru⟩ := hm.pc_of_waiting hu
    obtain ⟨eatIn', rfl⟩ := mayWait_lineToOrderFood (hm.waits u ru _ l hru hu)
    exact hm.customers.unique u C _ _ _ hru hC rfl rfl
  refine ⟨C, eatIn, hC, ⟨_, hpct, hserving⟩, hpcC, ?_, ?_⟩
  · rw [Machine.shared_perform, show (Machine.compute m t _ _).shared = _ from hshared]
    exact Function.update_self ..
  · have hself := Machine.status_perform_self hok ht (program r x m.shared).op
    have hwoken : ((Machine.compute m t (program r x m.shared).shared
        (program r x m.shared).pc).perform t (.signal (.lineToOrderFood j)
          .lineToOrderFood)).status C = .woken .lineToOrderFood :=
      Machine.status_signal_only hok hst honly
    rw [hop] at hself
    unfold after
    rw [hop, hwoken, show (Machine.perform _ t _).status t = .ready from hself]
    exact .chosen (Or.inl rfl)

/-- Whom an order taker serves: it has just called this customer, or served it before. -/
theorem served_before (hm : Sessions m) (hr : m.pc t = some r)
    {S k i : ℕ} {r' : Pc} {q' : ServiceAt}
    (hS : (after m t (program r x m.shared)).pc S = some r') (hserving : r'.serving = some (k, q'))
    (hi : q'.custID = some i) :
    (∃ r₀ q, m.pc S = some r₀ ∧ r₀.serving = some (k, q) ∧ q.custID = some i) ∨
      S = t ∧ Pops m.shared r k i ∧ q' = .chosen i := by
  rcases Machine.pc_computed hm.ok hS with ⟨rfl, rfl⟩ | ⟨hne, hold⟩ | ⟨-, hfork⟩
  · rcases point_cases r x m.shared with ⟨k', q, f, hserving', hprogram, hf⟩ | ⟨p, rfl, -⟩ |
      ⟨-, -, haside⟩
    · rw [hprogram] at hserving
      cases hpc : (serviceCustomer k' m.shared q).pc with
      | none =>
        change (f (serviceCustomer k' m.shared q).pc).serving = some (k, q') at hserving
        rw [hpc] at hserving
        rw [hf.returns k q' hserving] at hi
        cases hi
      | some q'' =>
        change (f (serviceCustomer k' m.shared q).pc).serving = some (k, q') at hserving
        rw [hpc, hf.goesOn] at hserving
        cases hserving
        cases q
        case enter =>
          cases hpc
          cases hi
        case look =>
          simp only [serviceCustomer] at hpc
          split_ifs at hpc with hlen
          cases hpc
          cases hi
          exact Or.inr ⟨rfl, ⟨hserving', hlen, rfl⟩, rfl⟩
        case paid =>
          simp only [serviceCustomer] at hpc
          split_ifs at hpc <;> cases hpc <;> exact Or.inl ⟨r, _, hr, hserving', hi⟩
        all_goals
          cases hpc
          try exact Or.inl ⟨r, _, hr, hserving', hi⟩
    · cases hserving
    · rw [haside.serving k q' hserving] at hi
      cases hi
  · exact Or.inl ⟨r', q', hold, hserving, hi⟩
  · rw [(fork_program hfork).1] at hserving
    cases hserving

theorem served_after (hm : Sessions m) (hr : m.pc t = some r) (ht : m.status t = .ready)
    {S k i : ℕ} {r' : Pc} {q' : ServiceAt}
    (hS : (after m t (program r x m.shared)).pc S = some r') (hserving : r'.serving = some (k, q'))
    (hi : q'.custID = some i) :
    ∃ C p eatIn, Session (after m t (program r x m.shared)) i S C k q' p eatIn := by
  rcases hm.served_before hr hS hserving hi with ⟨r₀, q, hS₀, hserving₀, hi₀⟩ | ⟨rfl, hpops, rfl⟩
  · obtain ⟨C, p, eatIn, hsession⟩ := hm.served S r₀ k q i hS₀ hserving₀ hi₀
    by_cases hSt : S = t
    · subst hSt
      rw [hr] at hS₀
      cases hS₀
      rcases hsession.of_service hm hr ht x with ⟨q'', -, hafter⟩ | ⟨hnone, -⟩
      · obtain ⟨-, rfl⟩ := hafter.service_eq hS hserving
        exact ⟨C, p, eatIn, hafter⟩
      · -- it has returned
        obtain ⟨f, hprogram, hf⟩ := program_serving hserving₀ x m.shared
        rw [Machine.pc_computed_self hm.ok (by simp [hr] : m.pc S ≠ none), hprogram] at hS
        cases hS
        change (f (serviceCustomer k m.shared q).pc).serving = _ at hserving
        rw [hnone] at hserving
        rw [hf.returns k q' hserving] at hi
        cases hi
    · by_cases hCt : C = t
      · subst hCt
        have hcustomer := hsession.customer_pc
        rw [hr] at hcustomer
        cases hcustomer
        have hafter := hsession.of_customer hm ht x
        obtain ⟨-, rfl⟩ := hafter.service_eq hS hserving
        exact ⟨C, _, eatIn, hafter⟩
      · have hafter := hsession.of_other hm hr ht hSt hCt x
        obtain ⟨-, rfl⟩ := hafter.service_eq hS hserving
        exact ⟨C, p, eatIn, hafter⟩
  · obtain ⟨C, eatIn, -, hafter⟩ := hm.session_of_pops hr ht hpops x
    exact ⟨C, _, eatIn, hafter⟩

/-- A customer who is engaged was so before, or has just been called. -/
theorem engaged_before (hm : Sessions m) (hr : m.pc t = some r) {C i : ℕ} {p : CustomerAt}
    (hC : m.pc C = some (.customer p)) (hi : p.id = some i) (hne : C ≠ t)
    (hengaged : (Pc.customer p).Engaged ((after m t (program r x m.shared)).status C)) :
    (Pc.customer p).Engaged (m.status C) ∨ ∃ k, Pops m.shared r k i := by
  have hok := hm.ok.compute (by simp [hr] : m.pc t ≠ none) (program r x m.shared).shared
    (program r x m.shared).pc
  have hstatus := Machine.status_perform_of_ne hok hne (program r x m.shared).op
  cases p
  case called i' eatIn =>
    cases hi
    by_cases hwaiting : ∃ c l, m.status C = .waiting c l
    · obtain ⟨c, l, hc⟩ := hwaiting
      have hwait := hm.waits C _ c l hC hc
      obtain ⟨rfl, rfl⟩ := hwait
      rcases hstatus with hsame | ⟨k, -, hold, -⟩ | ⟨c', k, hop, hold, -⟩
      · exact absurd (hsame.trans hc) (hengaged _ _)
      · cases hc.symm.trans hold
      · cases hc.symm.trans hold
        rcases hop with hop | hop
        · rcases signal_program hop with hforeign | ⟨k, j, hpops, hj⟩ | ⟨_, _, _, _, _, hk⟩ |
            ⟨_, _, _, hk⟩
          · exact hforeign.elim
          · cases hj
            exact Or.inr ⟨k, hpops⟩
          · cases hk
          · cases hk
        · exact (broadcast_program hop).elim
    · left
      intro c l hc
      exact hwaiting ⟨c, l, hc⟩
  case getToken i' eatIn =>
    left
    obtain ⟨c, l, hc⟩ := hengaged
    rcases hstatus with hsame | ⟨k, -, -, hnew⟩ | ⟨c', k, -, -, hnew⟩
    · exact ⟨c, l, hsame.symm.trans hc⟩
    · cases hc.symm.trans hnew
    · cases hc.symm.trans hnew
  all_goals first
    | exact Or.inl trivial
    | exact hengaged.elim

theorem engaged_after (hm : Sessions m) (hr : m.pc t = some r) (ht : m.status t = .ready)
    {C i : ℕ} {p : CustomerAt}
    (hC : (after m t (program r x m.shared)).pc C = some (.customer p)) (hi : p.id = some i)
    (hengaged : (Pc.customer p).Engaged ((after m t (program r x m.shared)).status C)) :
    ∃ S k q eatIn, Session (after m t (program r x m.shared)) i S C k q p eatIn := by
  rcases Machine.pc_computed hm.ok hC with ⟨rfl, heq⟩ | ⟨hne, hold⟩ | ⟨-, hfork⟩
  · rcases point_cases r x m.shared with ⟨k, q, f, hserving, hprogram, hf⟩ | ⟨p₀, rfl, horders⟩ |
      ⟨-, -, haside⟩
    · have hnone := hf.customerID (serviceCustomer k m.shared q).pc
      rw [hprogram] at heq
      rw [show f (serviceCustomer k m.shared q).pc = .customer p from heq.symm] at hnone
      cases hnone.symm.trans hi
    · have hgoesOn (h : (Pc.customer p₀).Engaged (m.status C)) (hi₀ : p₀.id = some i) :
          ∃ S k q eatIn, Session (after m C (program (.customer p₀) x m.shared)) i S C k q p
            eatIn := by
        obtain ⟨S, k, q, eatIn, hsession⟩ := hm.engaged C p₀ i hr hi₀ h
        cases heq
        exact ⟨S, k, q, eatIn, hsession.of_customer hm ht x⟩
      cases p₀
      case joinLineToOrder i' eatIn =>
        cases heq
        have hok := hm.ok.compute (by simp [hr] : m.pc C ≠ none)
          (program (.customer (.joinLineToOrder i' eatIn)) x m.shared).shared
          (program (.customer (.joinLineToOrder i' eatIn)) x m.shared).pc
        exact absurd (Machine.status_wait hok hm.lineToOrderFood_wait) (hengaged _ _)
      case called i' eatIn =>
        have hi₀ : i' = i := by
          cases heq
          exact Option.some_injective _ hi
        refine hgoesOn ?_ (congrArg some hi₀)
        intro c l hc
        cases ht.symm.trans hc
      case getToken i' eatIn =>
        simp only [program, customer] at heq
        split_ifs at heq <;> cases heq <;> exact hengaged.elim
      all_goals first
        | exact horders.elim
        | cases heq; exact hgoesOn trivial hi
    · rw [heq] at hengaged
      exact absurd hengaged (haside.engaged _)
  · rcases hm.engaged_before hr hold hi hne hengaged with h | ⟨k, hpops⟩
    · obtain ⟨S, k, q, eatIn, hsession⟩ := hm.engaged C p i hold hi h
      by_cases hSt : S = t
      · subst hSt
        rcases hsession.of_service hm hr ht x with ⟨q', -, hafter⟩ | ⟨hnone, hleft⟩
        · exact ⟨S, k, q', eatIn, hafter⟩
        · obtain ⟨rfl⟩ := hsession.meeting.getToken_of_none hnone
          obtain ⟨c, l, hc⟩ := hengaged
          exact absurd hc (hleft c l)
      · exact ⟨S, k, q, eatIn, hsession.of_other hm hr ht hSt hne x⟩
    · obtain ⟨C', eatIn, hC', hafter⟩ := hm.session_of_pops hr ht hpops x
      have hCC' := hm.customers.unique C C' _ _ i hold hC' hi rfl
      subst hCC'
      cases hold.symm.trans hC'
      exact ⟨t, k, _, eatIn, hafter⟩
  · cases (fork_program hfork).2.symm.trans hi

theorem one_after (hm : Sessions m) (hr : m.pc t = some r) {S S' k k' i : ℕ} {r₁ r₁' : Pc}
    {q q' : ServiceAt} (hS : (after m t (program r x m.shared)).pc S = some r₁)
    (hS' : (after m t (program r x m.shared)).pc S' = some r₁')
    (hserving : r₁.serving = some (k, q)) (hserving' : r₁'.serving = some (k', q'))
    (hi : q.custID = some i) (hi' : q'.custID = some i) : S = S' := by
  have hnot {S k k' : ℕ} {r₀ : Pc} {q₀ : ServiceAt} (hS : m.pc S = some r₀)
      (hserving : r₀.serving = some (k, q₀)) (hi : q₀.custID = some i)
      (hpops : Pops m.shared r k' i) : False := by
    obtain ⟨C, p, eatIn, hsession⟩ := hm.served S r₀ k q₀ i hS hserving hi
    obtain ⟨-, hlen, hlast⟩ := hpops
    exact hm.not_in_line hsession (by omega) hlast.symm
  rcases hm.served_before hr hS hserving hi with ⟨r₀, q₀, hS₀, hs₀, hi₀⟩ | ⟨rfl, hpops, -⟩ <;>
    rcases hm.served_before hr hS' hserving' hi' with
      ⟨r₀', q₀', hS₀', hs₀', hi₀'⟩ | ⟨rfl, hpops', -⟩
  · exact hm.one S S' r₀ r₀' k k' q₀ q₀' i hS₀ hS₀' hs₀ hs₀' hi₀ hi₀'
  · exact (hnot hS₀ hs₀ hi₀ hpops').elim
  · exact (hnot hS₀' hs₀' hi₀' hpops).elim
  · rfl

/-! ### Those who wait -/

theorem waits_after (hm : Sessions m) (hr : m.pc t = some r) (ht : m.status t = .ready) {u : ℕ}
    {r' : Pc} {c : CVName} {l : LockName}
    (hu : (after m t (program r x m.shared)).pc u = some r')
    (hc : (after m t (program r x m.shared)).status u = .waiting c l) :
    MayWait (after m t (program r x m.shared)).shared c l r' := by
  have hok := hm.ok.compute (by simp [hr] : m.pc t ≠ none) (program r x m.shared).shared
    (program r x m.shared).pc
  rw [Machine.shared_perform]
  by_cases hut : u = t
  · subst hut
    rw [Machine.pc_computed_self hm.ok (by simp [hr] : m.pc u ≠ none)] at hu
    cases hu
    have hself := Machine.status_perform_self hok ht (program r x m.shared).op
    rw [show (Machine.perform _ u _).status u = .waiting c l from hc] at hself
    cases hop : (program r x m.shared).op <;> rw [hop] at hself
    case wait c' l' =>
      rcases hself with h | h <;> cases h
      exact mayWait_program hop
    case acquire => rcases hself with h | h <;> cases h
    case broadcast => rcases hself with h | h <;> cases h
    all_goals cases hself
  · have hold : m.status u = .waiting c l := by
      rcases Machine.status_perform_of_ne hok hut (program r x m.shared).op with
        hsame | ⟨k, -, -, hnew⟩ | ⟨c', k, -, -, hnew⟩
      · exact hsame.symm.trans hc
      · cases hc.symm.trans hnew
      · cases hc.symm.trans hnew
    obtain ⟨ru, hru⟩ := hm.pc_of_waiting hold
    have hpc := Machine.pc_computed_of_ne hm.ok hut hru (program r x m.shared)
    rw [hu] at hpc
    cases hpc
    have hwait := hm.waits u r' c l hru hold
    cases r' with
    | customer p =>
      cases p
      case pay i eatIn =>
        have hsame := hm.orderTakerID_stays hru rfl nofun r x
        rw [MayWait, show (Machine.compute m t _ _).shared.getOrderTakerIDFromCustomerID i = _ from
          hsame]
        exact hwait
      case getToken i eatIn =>
        have hsame := hm.orderTakerID_stays hru rfl nofun r x
        rw [MayWait, show (Machine.compute m t _ _).shared.getOrderTakerIDFromCustomerID i = _ from
          hsame]
        exact hwait
      all_goals exact hwait
    | manager p => cases p <;> exact hwait
    | orderTaker p => cases p <;> exact hwait
    | _ => exact hwait

theorem broadcasts_after (hm : Sessions m) (hr : m.pc t = some r) (ht : m.status t = .ready)
    {u : ℕ} {c : CVName} {l : LockName}
    (hc : (after m t (program r x m.shared)).status u = .broadcasting c l) : c.Foreign := by
  have hok := hm.ok.compute (by simp [hr] : m.pc t ≠ none) (program r x m.shared).shared
    (program r x m.shared).pc
  by_cases hut : u = t
  · subst hut
    have hself := Machine.status_perform_self hok ht (program r x m.shared).op
    rw [show (Machine.perform _ u _).status u = .broadcasting c l from hc] at hself
    cases hop : (program r x m.shared).op <;> rw [hop] at hself
    case broadcast c' l' =>
      rcases hself with h | h <;> cases h
      exact broadcast_program hop
    case acquire => rcases hself with h | h <;> cases h
    case wait => rcases hself with h | h <;> cases h
    all_goals cases hself
  · rcases Machine.status_perform_of_ne hok hut (program r x m.shared).op with
      hsame | ⟨k, -, -, hnew⟩ | ⟨c', k, -, -, hnew⟩
    · exact hm.broadcasts u c l (hsame.symm.trans hc)
    · cases hc.symm.trans hnew
    · cases hc.symm.trans hnew

/-! ### The line -/

/-- Who stays in the line. -/
theorem line_old (hm : Sessions m) (hr : m.pc t = some r) (ht : m.status t = .ready) {n : ℕ}
    (hn : n < m.shared.countLineToOrderFoodLength)
    (hpops : ∀ k j, Pops m.shared r k j → m.shared.lineToOrderFood n ≠ j) :
    ∃ C eatIn, (after m t (program r x m.shared)).pc C =
        some (.customer (.called (m.shared.lineToOrderFood n) eatIn)) ∧
      (after m t (program r x m.shared)).status C =
        .waiting (.lineToOrderFood (m.shared.lineToOrderFood n)) .lineToOrderFood := by
  obtain ⟨C, eatIn, hC, hst⟩ := hm.line n hn
  have hok := hm.ok.compute (by simp [hr] : m.pc t ≠ none) (program r x m.shared).shared
    (program r x m.shared).pc
  have hne : C ≠ t := by
    rintro rfl
    cases ht.symm.trans hst
  refine ⟨C, eatIn, Machine.pc_computed_of_ne hm.ok hne hC _, ?_⟩
  apply Meeting.waiting_perform hok hne hst
  · intro hop
    rcases signal_program hop with hforeign | ⟨k, j, hpop, hj⟩ | ⟨_, _, _, _, _, hk⟩ |
      ⟨_, _, _, hk⟩
    · exact hforeign.elim
    · cases hj
      exact hpops k _ hpop rfl
    · cases hk
    · cases hk
  · intro hop
    exact (broadcast_program hop).elim

/-- Who joins the line is the last one in it. -/
theorem line_joined (hm : Sessions m) {i : ℕ} {eatIn : Bool}
    (hr : m.pc t = some (.customer (.joinLineToOrder i eatIn))) (ht : m.status t = .ready) :
    (after m t (program (.customer (.joinLineToOrder i eatIn)) x m.shared)).pc t =
        some (.customer (.called i eatIn)) ∧
      (after m t (program (.customer (.joinLineToOrder i eatIn)) x m.shared)).status t =
        .waiting (.lineToOrderFood i) .lineToOrderFood ∧
      ∀ n < m.shared.countLineToOrderFoodLength, m.shared.lineToOrderFood n ≠ i := by
  have hok := hm.ok.compute (by simp [hr] : m.pc t ≠ none)
    (program (.customer (.joinLineToOrder i eatIn)) x m.shared).shared
    (program (.customer (.joinLineToOrder i eatIn)) x m.shared).pc
  refine ⟨Machine.pc_computed_self hm.ok (by simp [hr] : m.pc t ≠ none) _,
    Machine.status_wait hok hm.lineToOrderFood_wait, ?_⟩
  rintro n hn rfl
  obtain ⟨C, eatIn', hC, hst⟩ := hm.line n hn
  have htC := hm.customers.unique t C _ _ _ hr hC rfl rfl
  subst htC
  cases ht.symm.trans hst

theorem line_after (hm : Sessions m) (hr : m.pc t = some r) (ht : m.status t = .ready) {s : Shared}
    (hs : (after m t (program r x m.shared)).shared = s) {n : ℕ}
    (hn : n < s.countLineToOrderFoodLength) :
    ∃ C eatIn, (after m t (program r x m.shared)).pc C =
        some (.customer (.called (s.lineToOrderFood n) eatIn)) ∧
      (after m t (program r x m.shared)).status C =
        .waiting (.lineToOrderFood (s.lineToOrderFood n)) .lineToOrderFood := by
  rw [Machine.shared_perform] at hs
  change (program r x m.shared).shared = s at hs
  subst hs
  rcases line_program r x m.shared with ⟨hlen, hline, hpops⟩ | ⟨k, j, hpop⟩ | ⟨i, eatIn, rfl⟩
  · rw [hlen] at hn
    rw [hline]
    exact hm.line_old hr ht hn fun k j hpop => absurd hpop (hpops k j)
  · obtain ⟨-, -, hshared⟩ := program_pops hpop x
    rw [hshared] at hn ⊢
    change n < m.shared.countLineToOrderFoodLength - 1 at hn
    apply hm.line_old hr ht (by omega)
    rintro k' j' ⟨-, -, rfl⟩ heq
    have hlast := hm.line_inj _ _ (by omega) (by omega) heq
    omega
  · obtain ⟨hpc, hstatus, -⟩ := hm.line_joined (x := x) hr ht
    change n < m.shared.countLineToOrderFoodLength + 1 at hn
    have hline :
        (program (.customer (.joinLineToOrder i eatIn)) x m.shared).shared.lineToOrderFood =
          Function.update m.shared.lineToOrderFood m.shared.countLineToOrderFoodLength i := rfl
    rw [hline]
    by_cases hlast : n = m.shared.countLineToOrderFoodLength
    · subst hlast
      rw [Function.update_self]
      exact ⟨t, eatIn, hpc, hstatus⟩
    · rw [Function.update_of_ne hlast]
      exact hm.line_old hr ht (by omega) nofun

theorem line_inj_after (hm : Sessions m) (hr : m.pc t = some r) (ht : m.status t = .ready)
    {s : Shared} (hs : (after m t (program r x m.shared)).shared = s) {a b : ℕ}
    (ha : a < s.countLineToOrderFoodLength) (hb : b < s.countLineToOrderFoodLength)
    (hab : s.lineToOrderFood a = s.lineToOrderFood b) : a = b := by
  rw [Machine.shared_perform] at hs
  change (program r x m.shared).shared = s at hs
  subst hs
  rcases line_program r x m.shared with ⟨hlen, hline, -⟩ | ⟨k, j, hpop⟩ | ⟨i, eatIn, rfl⟩
  · rw [hlen] at ha hb
    rw [hline] at hab
    exact hm.line_inj a b ha hb hab
  · obtain ⟨-, -, hshared⟩ := program_pops hpop x
    rw [hshared] at ha hb hab
    change a < m.shared.countLineToOrderFoodLength - 1 at ha
    change b < m.shared.countLineToOrderFoodLength - 1 at hb
    exact hm.line_inj a b (by omega) (by omega) hab
  · obtain ⟨-, -, hnew⟩ := hm.line_joined (x := x) hr ht
    change a < m.shared.countLineToOrderFoodLength + 1 at ha
    change b < m.shared.countLineToOrderFoodLength + 1 at hb
    change Function.update m.shared.lineToOrderFood _ i a =
      Function.update m.shared.lineToOrderFood _ i b at hab
    by_cases halast : a = m.shared.countLineToOrderFoodLength <;>
      by_cases hblast : b = m.shared.countLineToOrderFoodLength
    · omega
    · rw [halast, Function.update_self, Function.update_of_ne hblast] at hab
      exact absurd hab.symm (hnew b (by omega))
    · rw [hblast, Function.update_self, Function.update_of_ne halast] at hab
      exact absurd hab (hnew a (by omega))
    · rw [Function.update_of_ne halast, Function.update_of_ne hblast] at hab
      exact hm.line_inj a b (by omega) (by omega) hab

/-! ### Runs -/

/-- A call. -/
theorem after_call (hm : Sessions m) (hr : m.pc t = some r) (ht : m.status t = .ready) (x : ℕ) :
    Sessions (after m t (program r x m.shared)) := by
  have hs := step_after hr ht x
  refine ⟨hm.ok.step hs, hm.owns_after hr ht x,
    hm.customers.step hm.ok hs fun p _ => takes_customer p x m.shared,
    hm.orderTakers.step hm.ok hs fun p _ => takes_orderTaker p x m.shared, ?_, ?_, ?_, ?_, ?_, ?_,
    ?_⟩
  · intro u r' c l hu hc
    exact hm.waits_after hr ht hu hc
  · intro u c l hc
    exact hm.broadcasts_after hr ht hc
  · intro n hn
    exact hm.line_after hr ht rfl hn
  · intro a b ha hb hab
    exact hm.line_inj_after hr ht rfl ha hb hab
  · intro S r' k q i hS hserving hi
    exact hm.served_after hr ht hS hserving hi
  · intro C p i hC hi hengaged
    exact hm.engaged_after hr ht hC hi hengaged
  · intro S S' r₁ r₁' k k' q q' i hS hS' hserving hserving' hi hi'
    exact hm.one_after hr hS hS' hserving hserving' hi hi'

/-- A step in which a thread only acquires a lock again, or wakes others for something else. -/
theorem of_stir {m' : Simulation} (hm : Sessions m) (hok : m'.Ok) (howns : m'.Owns (m'.Has holds))
    (hpc : m'.pc = m.pc) (hshared : m'.shared = m.shared)
    (hstir : ∀ u, (∀ c l, m.status u ≠ .broadcasting c l) → Stir (m.status u) (m'.status u))
    (hbroadcast : ∀ u c l, m.status u = .broadcasting c l →
      m'.status u = .ready ∨ m'.status u = .broadcasting c l) : Sessions m' := by
  have hwaiting {u : ℕ} {c : CVName} {l : LockName} (hc : m'.status u = .waiting c l) :
      m.status u = .waiting c l := by
    by_cases hb : ∃ c l, m.status u = .broadcasting c l
    · obtain ⟨c', l', hb⟩ := hb
      rcases hbroadcast u c' l' hb with h | h <;> cases hc.symm.trans h
    · have hst := hstir u fun c l h => hb ⟨c, l, h⟩
      rw [hc] at hst
      generalize m.status u = st at hst ⊢
      cases hst
      rfl
  have hsession {i S C k : ℕ} {q : ServiceAt} {p : CustomerAt} {eatIn : Bool}
      (h : Session m i S C k q p eatIn) : Session m' i S C k q p eatIn := by
    obtain ⟨rS, hrS, hserving⟩ := h.service_pc
    have hid : m'.shared.getOrderTakerIDFromCustomerID i = k := by rw [hshared, h.orderTakerID]
    have hpcS : m'.pc S = some rS := by rw [hpc, hrS]
    have hpcC : m'.pc C = some (.customer p) := by rw [hpc, h.customer_pc]
    have hnot : (∀ c l, m.status S ≠ .broadcasting c l) ∧
        ∀ c l, m.status C ≠ .broadcasting c l := h.meeting.not_broadcasting
    refine ⟨⟨rS, hpcS, hserving⟩, hpcC, hid, ?_⟩
    refine h.meeting.stir (hstir S hnot.1) (hstir C hnot.2) hid ?_
    intro l hqS hblocksS hpC hblocksC
    exact h.ne (howns.unique ⟨_, hpcC, hpC⟩ ⟨_, hpcS, (holds_of_serving hserving l).mpr hqS⟩
      hblocksC hblocksS)
  refine ⟨hok, howns, ⟨?_, ?_⟩, ⟨?_, ?_⟩, ?_, ?_, ?_, ?_, ?_, ?_, ?_⟩
  · rw [hpc, hshared]
    exact hm.customers.lt
  · rw [hpc]
    exact hm.customers.unique
  · rw [hpc, hshared]
    exact hm.orderTakers.lt
  · rw [hpc]
    exact hm.orderTakers.unique
  · intro u r c l hu hc
    rw [hpc] at hu
    rw [hshared]
    exact hm.waits u r c l hu (hwaiting hc)
  · intro u c l hc
    by_cases hb : ∃ c l, m.status u = .broadcasting c l
    · obtain ⟨c', l', hb⟩ := hb
      rcases hbroadcast u c' l' hb with h | h
      · cases hc.symm.trans h
      · cases hc.symm.trans h
        exact hm.broadcasts u c l hb
    · have hst := hstir u fun c l h => hb ⟨c, l, h⟩
      rw [hc] at hst
      generalize hold : m.status u = st at hst
      cases hst
      exact absurd ⟨c, l, hold⟩ hb
  · rw [hpc, hshared]
    intro n hn
    obtain ⟨C, eatIn, hC, hst⟩ := hm.line n hn
    refine ⟨C, eatIn, hC, ?_⟩
    have hstir' := hstir C (by rw [hst]; exact nofun)
    rw [hst] at hstir'
    exact Meeting.waiting_stir (fun h => h) hstir'
  · rw [hshared]
    exact hm.line_inj
  · intro S r k q i hS hserving hi
    rw [hpc] at hS
    obtain ⟨C, p, eatIn, h⟩ := hm.served S r k q i hS hserving hi
    exact ⟨C, p, eatIn, hsession h⟩
  · intro C p i hC hi hengaged
    rw [hpc] at hC
    have hbefore : (Pc.customer p).Engaged (m.status C) := by
      cases p
      case called i' eatIn =>
        intro c l hc
        have hst := hstir C (by rw [hc]; exact nofun)
        rw [hc] at hst
        obtain ⟨rfl, rfl⟩ := hm.waits C _ c l hC hc
        have hforeign : ¬ (CVName.lineToOrderFood i').Foreign := fun h => h
        exact hengaged _ _ (Meeting.waiting_stir hforeign hst)
      case getToken i' eatIn =>
        obtain ⟨c, l, hc⟩ := hengaged
        exact ⟨c, l, hwaiting hc⟩
      all_goals exact hengaged
    obtain ⟨S, k, q, eatIn, h⟩ := hm.engaged C p i hC hi hbefore
    exact ⟨S, k, q, eatIn, hsession h⟩
  · rw [hpc]
    exact hm.one

/-- **One step.** -/
theorem step {m' : Simulation} (hm : Sessions m) (hs : simulationStep m (t, x) = .ok m') :
    Sessions m' := by
  rcases Machine.step_cases hs with ⟨r, hr, ht, rfl⟩ | ⟨r, l, hr, ht, rfl⟩ | ⟨r, c, l, hr, ht, rfl⟩
  · exact hm.after_call hr ht x
  · have howns := hm.owns.step hm.ok hs (fun p _ h => by cases ht.symm.trans h)
      fun p u q l _ h => by cases ht.symm.trans h
    refine hm.of_stir (hm.ok.step hs) howns rfl rfl ?_ ?_
    · intro u _
      by_cases hut : u = t
      · subst hut
        rw [ht, Machine.acquire, Machine.setStatus]
        simp only [Function.update_self]
        split_ifs
        · exact .acquired l
        · exact .queued l
      · rw [Machine.status_acquire_of_ne hut]
        exact .same _
    · intro u c l' hb
      by_cases hut : u = t
      · subst hut
        cases ht.symm.trans hb
      · rw [Machine.status_acquire_of_ne hut]
        exact Or.inr hb
  · have howns := hm.owns.step hm.ok hs (fun p _ h => by cases ht.symm.trans h)
      fun p u q l _ h => by cases ht.symm.trans h
    refine hm.of_stir (hm.ok.step hs) howns (Machine.pc_broadcast m t c l)
      (Machine.shared_broadcast m t c l) ?_ ?_
    · intro u hu
      have hut : u ≠ t := by
        rintro rfl
        exact hu c l ht
      show Stir (m.status u) ((m.perform t (.broadcast c l)).status u)
      apply Meeting.stir_perform hm.ok hut
      rintro c' l' (hop | hop) -
      · cases hop
      · have hc : c' = c := by
          injection hop with hc
          exact hc.symm
        rw [hc]
        exact hm.broadcasts t c l ht
    · intro u c' l' hb
      by_cases hut : u = t
      · subst hut
        cases ht.symm.trans hb
        unfold Machine.broadcast
        split_ifs
        · exact Or.inl (Function.update_self ..)
        · exact Or.inr (Function.update_self ..)
      · rcases Machine.status_perform_of_ne hm.ok hut (.broadcast c l) with
          hsame | ⟨k, -, hold, -⟩ | ⟨c'', k, -, hold, -⟩
        · exact Or.inr (hsame.trans hb)
        · cases hb.symm.trans hold
        · cases hb.symm.trans hold

end Sessions

end

/-- **At the start** nobody orders. -/
theorem Sessions.init (routines : List Routine) (target : ℕ) (v : TestVariables) :
    Sessions (.init (.main routines) (initializeTest target v)) := by
  have hmain {u : ℕ} {r : Pc} (hu : (Machine.init (.main routines) (initializeTest target v) :
      Simulation).pc u = some r) : r = .main routines := Machine.pc_init hu
  refine ⟨Machine.Ok.init _ _, ?_, ⟨?_, ?_⟩, ⟨?_, ?_⟩, ?_, ?_, ?_, ?_, ?_, ?_, ?_⟩
  · rintro u l ⟨r, hr, hl⟩
    cases hmain hr
    exact hl.elim
  · intro u r i hr hi
    cases hmain hr
    cases hi
  · intro u u' r r' i hr _ hi
    cases hmain hr
    cases hi
  · intro u r i hr hi
    cases hmain hr
    cases hi
  · intro u u' r r' i hr _ hi
    cases hmain hr
    cases hi
  · intro u r c l _ hc
    cases hc
  · intro u c l hc
    cases hc
  · intro n hn
    exact absurd hn (Nat.not_lt_zero n)
  · intro a b ha
    exact absurd ha (Nat.not_lt_zero a)
  · intro S r k q i hr hserving
    cases hmain hr
    cases hserving
  · intro C p i hr
    cases hmain hr
  · intro S S' r r' k k' q q' i hr _ hserving
    cases hmain hr
    cases hserving

end Nachos.Restaurant
