import Nachos.Restaurant.Ordering

/-!
# A customer and its order taker

From the call of the customer until its order is entered, the order taker and the customer go
through four signals and waits on one condition. `Meeting` lists where both can be at a time.

* `Meeting.stir`: what the other threads do leaves them in a meeting.
-/

namespace Nachos.Restaurant

open Nachos.Lib Nachos.Threads

/-- The status of a thread. -/
abbrev Stat := Status LockName CVName

/-- The thread is about to acquire the lock, or waits for it. -/
def Late (l : LockName) (st : Stat) : Prop := st = .woken l ∨ st = .acquiring l

/-- The thread waits for the lock, or has it. -/
def Near (l : LockName) (st : Stat) : Prop := st = .acquiring l ∨ st = .ready

/-- **A meeting** of the customer `i` with the order taker `k`: where the order taker is, and where
    the customer is. -/
inductive Meeting (i k : ℕ) (eatIn : Bool) : ServiceAt → Stat → CustomerAt → Stat → Prop
  /-- The customer is called, and the order taker has the line. -/
  | chosen {st} (h : Late .lineToOrderFood st) :
      Meeting i k eatIn (.chosen i) .ready (.called i eatIn) st
  | acquired {sst st} (hs : Near (.orderTakerBusy k) sst) (h : Late .lineToOrderFood st) :
      Meeting i k eatIn (.acquired i) sst (.called i eatIn) st
  | ask {st} (h : Late .lineToOrderFood st ∨ st = .ready) :
      Meeting i k eatIn (.ask i) .ready (.called i eatIn) st
  | askMeet : Meeting i k eatIn (.ask i) .ready (.meet i eatIn) (.acquiring (.orderTakerBusy k))
  /-- The order taker waits for the order. -/
  | called {st} (h : Late .lineToOrderFood st ∨ st = .ready) :
      Meeting i k eatIn (.ordered i) (.waiting (.orderTakerBusy k) (.orderTakerBusy k))
        (.called i eatIn) st
  | meet {st} (h : Near (.orderTakerBusy k) st) :
      Meeting i k eatIn (.ordered i) (.waiting (.orderTakerBusy k) (.orderTakerBusy k))
        (.meet i eatIn) st
  | order : Meeting i k eatIn (.ordered i) (.waiting (.orderTakerBusy k) (.orderTakerBusy k))
      (.order i eatIn) .ready
  | ordered : Meeting i k eatIn (.ordered i) (.waiting (.orderTakerBusy k) (.orderTakerBusy k))
      (.ordered i eatIn) .ready
  /-- The customer has ordered. -/
  | awaitResponse {sst} (hs : Late (.orderTakerBusy k) sst) :
      Meeting i k eatIn (.ordered i) sst (.awaitResponse i eatIn) .ready
  | respond {sst} (hs : Late (.orderTakerBusy k) sst ∨ sst = .ready) :
      Meeting i k eatIn (.ordered i) sst (.pay i eatIn)
        (.waiting (.orderTakerBusy k) (.orderTakerBusy k))
  | responded {st} (h : Late (.orderTakerBusy k) st) :
      Meeting i k eatIn (.respond i) .ready (.pay i eatIn) st
  /-- The order taker waits for the money. -/
  | pay {st} (h : Late (.orderTakerBusy k) st ∨ st = .ready) :
      Meeting i k eatIn (.paid i) (.waiting (.orderTakerBusy k) (.orderTakerBusy k))
        (.pay i eatIn) st
  | paid {sst} (hs : Late (.orderTakerBusy k) sst) :
      Meeting i k eatIn (.paid i) sst (.paid i eatIn) .ready
  | number {sst} (hs : Late (.orderTakerBusy k) sst ∨ sst = .ready) :
      Meeting i k eatIn (.paid i) sst (.getToken i eatIn)
        (.waiting (.orderTakerBusy k) (.orderTakerBusy k))
  | numbered (token : ℕ) :
      Meeting i k eatIn (.numbered i token) .ready (.getToken i eatIn)
        (.waiting (.orderTakerBusy k) (.orderTakerBusy k))
  /-- The customer has a number, and cannot leave before the order is entered. -/
  | told (token : ℕ) {st} (h : Late (.orderTakerBusy k) st) :
      Meeting i k eatIn (.told i token) .ready (.getToken i eatIn) st
  | add (token : ℕ) {sst st} (hs : Near .ordersNeedingBagging sst)
      (h : Late (.orderTakerBusy k) st) :
      Meeting i k eatIn (.add i token) sst (.getToken i eatIn) st
  | added (token : ℕ) {st} (h : Late (.orderTakerBusy k) st) :
      Meeting i k eatIn (.added i token) .ready (.getToken i eatIn) st
  | leave (token : ℕ) {st} (h : Late (.orderTakerBusy k) st) :
      Meeting i k eatIn (.leave i token) .ready (.getToken i eatIn) st

/-- What a step can do to the status of a thread that has to do with orders, and is neither
    signalled nor makes a call. -/
inductive Stir : Stat → Stat → Prop
  | same (st) : Stir st st
  | granted (l) : Stir (.acquiring l) .ready
  | acquired (l) : Stir (.woken l) .ready
  | queued (l) : Stir (.woken l) (.acquiring l)
  | foreign {c : CVName} (h : c.Foreign) (l) : Stir (.waiting c l) (.woken l)

namespace Meeting

variable {i k : ℕ} {eatIn : Bool} {q : ServiceAt} {sst sst' st st' : Stat} {p : CustomerAt}

theorem custID (h : Meeting i k eatIn q sst p st) : q.custID = some i := by
  cases h <;> rfl

theorem id (h : Meeting i k eatIn q sst p st) : p.id = some i := by
  cases h <;> rfl

theorem late_stir {l : LockName} (h : Late l st) (hst : Stir st st') :
    Late l st' ∨ st' = .ready := by
  rcases h with rfl | rfl <;> cases hst <;> simp [Late]

theorem near_stir {l : LockName} (h : Near l st) (hst : Stir st st') : Near l st' := by
  rcases h with rfl | rfl <;> cases hst <;> simp [Near]

theorem ready_stir (hst : Stir .ready st') : st' = .ready := by
  cases hst
  rfl

theorem waiting_stir {c : CVName} {l : LockName} (hc : ¬ c.Foreign)
    (hst : Stir (.waiting c l) st') : st' = .waiting c l := by
  cases hst with
  | same => rfl
  | foreign h => exact absurd h hc

/-- **Other threads** leave both in the meeting, as the two are not inside the same lock. -/
theorem stir (h : Meeting i k eatIn q sst p st) (hsst : Stir sst sst') (hst : Stir st st')
    {f : ℕ → ℕ} (hf : f i = k)
    (hexcl : ∀ l, q.Holds k l → ¬ sst'.Blocks l → p.Holds f l → ¬ st'.Blocks l → False) :
    Meeting i k eatIn q sst' p st' := by
  have hready {l : LockName} : ¬ (Status.ready : Stat).Blocks l := not_false
  have hwaiting : ¬ (CVName.orderTakerBusy k).Foreign := not_false
  cases h with
  | chosen h =>
    cases ready_stir hsst
    rcases late_stir h hst with h | rfl
    · exact .chosen h
    · exact (hexcl .lineToOrderFood rfl hready rfl hready).elim
  | acquired hs h =>
    have hs' := near_stir hs hsst
    rcases late_stir h hst with h | rfl
    · exact .acquired hs' h
    · refine (hexcl .lineToOrderFood (Or.inl rfl) ?_ rfl hready).elim
      rcases hs' with rfl | rfl
      · exact nofun
      · exact hready
  | ask h =>
    cases ready_stir hsst
    rcases h with h | rfl
    · exact .ask (late_stir h hst)
    · cases ready_stir hst
      exact .ask (Or.inr rfl)
  | askMeet =>
    cases ready_stir hsst
    cases hst with
    | same => exact .askMeet
    | granted => exact (hexcl (.orderTakerBusy k) rfl hready (Or.inr (by rw [hf])) hready).elim
  | called h =>
    cases waiting_stir hwaiting hsst
    rcases h with h | rfl
    · exact .called (late_stir h hst)
    · cases ready_stir hst
      exact .called (Or.inr rfl)
  | meet h =>
    cases waiting_stir hwaiting hsst
    exact .meet (near_stir h hst)
  | order =>
    cases waiting_stir hwaiting hsst
    cases ready_stir hst
    exact .order
  | ordered =>
    cases waiting_stir hwaiting hsst
    cases ready_stir hst
    exact .ordered
  | awaitResponse hs =>
    cases ready_stir hst
    rcases late_stir hs hsst with hs | rfl
    · exact .awaitResponse hs
    · exact (hexcl (.orderTakerBusy k) rfl hready (congrArg _ hf.symm) hready).elim
  | respond hs =>
    cases waiting_stir hwaiting hst
    rcases hs with hs | rfl
    · exact .respond (late_stir hs hsst)
    · cases ready_stir hsst
      exact .respond (Or.inr rfl)
  | responded h =>
    cases ready_stir hsst
    rcases late_stir h hst with h | rfl
    · exact .responded h
    · exact (hexcl (.orderTakerBusy k) rfl hready (congrArg _ hf.symm) hready).elim
  | pay h =>
    cases waiting_stir hwaiting hsst
    rcases h with h | rfl
    · exact .pay (late_stir h hst)
    · cases ready_stir hst
      exact .pay (Or.inr rfl)
  | paid hs =>
    cases ready_stir hst
    rcases late_stir hs hsst with hs | rfl
    · exact .paid hs
    · exact (hexcl (.orderTakerBusy k) rfl hready (congrArg _ hf.symm) hready).elim
  | number hs =>
    cases waiting_stir hwaiting hst
    rcases hs with hs | rfl
    · exact .number (late_stir hs hsst)
    · cases ready_stir hsst
      exact .number (Or.inr rfl)
  | numbered token =>
    cases ready_stir hsst
    cases waiting_stir hwaiting hst
    exact .numbered token
  | told token h =>
    cases ready_stir hsst
    rcases late_stir h hst with h | rfl
    · exact .told token h
    · exact (hexcl (.orderTakerBusy k) rfl hready (congrArg _ hf.symm) hready).elim
  | add token hs h =>
    have hs' := near_stir hs hsst
    rcases late_stir h hst with h | rfl
    · exact .add token hs' h
    · refine (hexcl (.orderTakerBusy k) rfl ?_ (congrArg _ hf.symm) hready).elim
      rcases hs' with rfl | rfl
      · exact nofun
      · exact hready
  | added token h =>
    cases ready_stir hsst
    rcases late_stir h hst with h | rfl
    · exact .added token h
    · exact (hexcl (.orderTakerBusy k) rfl hready (congrArg _ hf.symm) hready).elim
  | leave token h =>
    cases ready_stir hsst
    rcases late_stir h hst with h | rfl
    · exact .leave token h
    · exact (hexcl (.orderTakerBusy k) rfl hready (congrArg _ hf.symm) hready).elim

/-! ## Steps of the two -/

section

variable {m : Simulation} {S C : ℕ}

/-- Another thread: a call gives it a lock, or wakes it for something else than an order. -/
theorem stir_perform {t u : ℕ} (hok : m.Ok) (hu : u ≠ t) {op : Op LockName CVName Pc}
    (hcall : ∀ c l, op = .signal c l ∨ op = .broadcast c l → m.status u = .waiting c l →
      c.Foreign) : Stir (m.status u) ((m.perform t op).status u) := by
  rcases Machine.status_perform_of_ne hok hu op with
    hsame | ⟨l, -, hold, hnew⟩ | ⟨c, l, hop, hold, hnew⟩
  · rw [hsame]
    exact .same _
  · rw [hold, hnew]
    exact .granted l
  · rw [hold, hnew]
    exact .foreign (hcall c l hop hold) l

/-- The other one is late for a lock that the call does not release. -/
theorem late_perform {l : LockName} (hok : m.Ok) (hne : C ≠ S) (h : Late l (m.status C))
    {op : Op LockName CVName Pc} (hrelease : op ≠ .release l) (hwait : ∀ c, op ≠ .wait c l) :
    Late l ((m.perform S op).status C) := by
  rcases Machine.status_perform_of_ne hok hne op with
    hsame | ⟨k, hop, hold, -⟩ | ⟨c, k, -, hold, -⟩
  · rwa [hsame]
  · rcases h with h | h <;> rw [h] at hold <;> cases hold
    rcases hop with rfl | ⟨c, rfl⟩
    · exact absurd rfl hrelease
    · exact absurd rfl (hwait c)
  · rcases h with h | h <;> rw [h] at hold <;> cases hold

theorem late_or_ready_perform {l : LockName} (hok : m.Ok) (hne : C ≠ S)
    (h : Late l (m.status C) ∨ m.status C = .ready) (op : Op LockName CVName Pc) :
    Late l ((m.perform S op).status C) ∨ (m.perform S op).status C = .ready := by
  rcases Machine.status_perform_of_ne hok hne op with
    hsame | ⟨k, -, -, hnew⟩ | ⟨c, k, -, hold, -⟩
  · rwa [hsame]
  · exact Or.inr hnew
  · rcases h with (h | h) | h <;> rw [h] at hold <;> cases hold

/-- The other one stays where it is if the call has nothing to do with it. -/
theorem waiting_perform {c : CVName} {l : LockName} (hok : m.Ok) (hne : C ≠ S)
    (h : m.status C = .waiting c l) (op : Op LockName CVName Pc) (hsignal : op ≠ .signal c l)
    (hbroadcast : op ≠ .broadcast c l) : (m.perform S op).status C = .waiting c l := by
  rcases Machine.status_perform_of_ne hok hne op with
    hsame | ⟨k, -, hold, -⟩ | ⟨c', k, hop, hold, -⟩
  · rwa [hsame]
  · rw [h] at hold
    cases hold
  · rw [h] at hold
    cases hold
    rcases hop with rfl | rfl
    · exact absurd rfl hsignal
    · exact absurd rfl hbroadcast

theorem near_perform {l : LockName} (hok : m.Ok) (hne : C ≠ S) (h : Near l (m.status C))
    (op : Op LockName CVName Pc) : Near l ((m.perform S op).status C) := by
  rcases Machine.status_perform_of_ne hok hne op with
    hsame | ⟨k, -, -, hnew⟩ | ⟨c, k, -, hold, -⟩
  · rwa [hsame]
  · exact Or.inr hnew
  · rcases h with h | h <;> rw [h] at hold <;> cases hold

theorem near_acquire (hok : m.Ok) (hS : m.status S = .ready) (l : LockName) :
    Near l ((m.perform S (.acquire l)).status S) :=
  (Machine.status_perform_self hok hS (.acquire l)).symm

/-- Who waits for this order taker or this customer. -/
def OnlyWait (m : Simulation) (S C k : ℕ) : Prop :=
  ∀ u l, m.status u = .waiting (.orderTakerBusy k) l → (u = S ∨ u = C) ∧ l = .orderTakerBusy k

theorem OnlyWait.wait (h : OnlyWait m S C k) (hok : m.Ok) (t : ℕ) :
    (m.perform t (.wait (.orderTakerBusy k) (.orderTakerBusy k))).status t =
      .waiting (.orderTakerBusy k) (.orderTakerBusy k) :=
  Machine.status_wait hok fun u l hu => (h u l hu).2

/-- One of the two wakes the other one. -/
theorem OnlyWait.signal (h : OnlyWait m S C k) (hok : m.Ok) (hS : m.status S = .ready)
    (hC : m.status C = .waiting (.orderTakerBusy k) (.orderTakerBusy k)) :
    (m.perform S (.signal (.orderTakerBusy k) (.orderTakerBusy k))).status C =
      .woken (.orderTakerBusy k) := by
  refine Machine.status_signal_only hok hC ?_
  intro u l hu
  refine (h u l hu).1.resolve_left ?_
  rintro rfl
  rw [hS] at hu
  cases hu

theorem OnlyWait.symm (h : OnlyWait m S C k) : OnlyWait m C S k :=
  fun u l hu => (h u l hu).imp_left Or.symm

/-- **The order taker goes on**: the meeting goes on, or the customer may leave. -/
theorem service (hok : m.Ok) (hne : C ≠ S) (h : Meeting i k eatIn q (m.status S) p (m.status C))
    (hS : m.status S = .ready) (honly : OnlyWait m S C k) (s : Shared)
    (f : Option ServiceAt → Pc) {a : Act (Option ServiceAt)} (ha : serviceCustomer k s q = a) :
    (∃ q', a.pc = some q' ∧ Meeting i k eatIn q' ((m.perform S (a.op.map f)).status S) p
        ((m.perform S (a.op.map f)).status C)) ∨
      a.pc = none ∧ ∀ c l, (m.perform S (a.op.map f)).status C ≠ .waiting c l := by
  have hself := Machine.status_perform_self hok hS
  generalize hst : m.status C = st at h
  rw [hS] at h
  cases h with
  | chosen h =>
    subst hst ha
    refine Or.inl ⟨_, rfl, .acquired (near_acquire hok hS _) ?_⟩
    exact late_perform hok hne h (by rintro ⟨⟩) (by rintro _ ⟨⟩)
  | acquired hs h =>
    subst hst ha
    have hready := hself (.release .lineToOrderFood)
    refine Or.inl ⟨_, rfl, ?_⟩
    show Meeting i k eatIn (.ask i) ((m.perform S (.release .lineToOrderFood)).status S) _ _
    rw [show (m.perform S (.release .lineToOrderFood)).status S = .ready from hready]
    exact .ask (late_or_ready_perform hok hne (Or.inl h) _)
  | ask h =>
    subst hst ha
    refine Or.inl ⟨_, rfl, ?_⟩
    show Meeting i k eatIn (.ordered i) ((m.perform S (.wait _ _)).status S) _ _
    rw [honly.wait hok]
    exact .called (late_or_ready_perform hok hne h _)
  | askMeet =>
    subst ha
    refine Or.inl ⟨_, rfl, ?_⟩
    show Meeting i k eatIn (.ordered i) ((m.perform S (.wait _ _)).status S) _ _
    rw [honly.wait hok]
    exact .meet (near_perform hok hne (Or.inl hst) _)
  | respond hs =>
    subst ha
    refine Or.inl ⟨_, rfl, ?_⟩
    show Meeting i k eatIn (.respond i) ((m.perform S (.signal _ _)).status S) _
      ((m.perform S (.signal _ _)).status C)
    rw [honly.signal hok hS hst, show (m.perform S (.signal _ _)).status S = .ready from
      hself (.signal _ _)]
    exact .responded (Or.inl rfl)
  | responded h =>
    subst hst ha
    refine Or.inl ⟨_, rfl, ?_⟩
    show Meeting i k eatIn (.paid i) ((m.perform S (.wait _ _)).status S) _ _
    rw [honly.wait hok]
    exact .pay (late_or_ready_perform hok hne (Or.inl h) _)
  | number hs =>
    subst ha
    simp only [serviceCustomer]
    split_ifs
    · refine Or.inl ⟨_, rfl, ?_⟩
      show Meeting i k eatIn (.numbered i _) (m.status S) _ (m.status C)
      rw [hS, hst]
      exact .numbered _
    · refine Or.inl ⟨_, rfl, ?_⟩
      show Meeting i k eatIn (.told i _) ((m.perform S (.signal _ _)).status S) _
        ((m.perform S (.signal _ _)).status C)
      rw [honly.signal hok hS hst, show (m.perform S (.signal _ _)).status S = .ready from
        hself (.signal _ _)]
      exact .told _ (Or.inl rfl)
  | numbered token =>
    subst ha
    refine Or.inl ⟨_, rfl, ?_⟩
    show Meeting i k eatIn (.told i token) ((m.perform S (.signal _ _)).status S) _
      ((m.perform S (.signal _ _)).status C)
    rw [honly.signal hok hS hst, show (m.perform S (.signal _ _)).status S = .ready from
      hself (.signal _ _)]
    exact .told token (Or.inl rfl)
  | told token h =>
    subst hst ha
    refine Or.inl ⟨_, rfl, .add token (near_acquire hok hS _) ?_⟩
    exact late_perform hok hne h (by rintro ⟨⟩) (by rintro _ ⟨⟩)
  | add token hs h =>
    subst hst ha
    refine Or.inl ⟨_, rfl, ?_⟩
    show Meeting i k eatIn (.added i token) (m.status S) _ (m.status C)
    rw [hS]
    exact .added token h
  | added token h =>
    subst hst ha
    refine Or.inl ⟨_, rfl, ?_⟩
    show Meeting i k eatIn (.leave i token) ((m.perform S (.release _)).status S) _
      ((m.perform S (.release _)).status C)
    rw [show (m.perform S (.release _)).status S = .ready from hself (.release _)]
    exact .leave token (late_perform hok hne h (by rintro ⟨⟩) (by rintro _ ⟨⟩))
  | leave token h =>
    subst hst ha
    refine Or.inr ⟨rfl, ?_⟩
    intro c l hl
    change (m.perform S (.release (.orderTakerBusy k))).status C = _ at hl
    rcases late_or_ready_perform hok hne (Or.inl h) (.release (.orderTakerBusy k)) with
      (h' | h') | h'
    all_goals
      rw [h'] at hl
      cases hl
  | awaitResponse hs => rcases hs with hs | hs <;> cases hs
  | paid hs => rcases hs with hs | hs <;> cases hs

/-- **The customer goes on**, and the meeting does. -/
theorem customer (hok : m.Ok) (hne : C ≠ S)
    (h : Meeting i k eatIn q (m.status S) p (m.status C)) (hC : m.status C = .ready)
    (honly : OnlyWait m S C k)
    (howner : q = .ask i → (m.locks (.orderTakerBusy k)).owner = some S) {s : Shared}
    (hs : s.getOrderTakerIDFromCustomerID i = k) {x : ℕ} {a : Act CustomerAt}
    (ha : customer x s p = a) :
    Meeting i k eatIn q ((m.perform C (a.op.map .customer)).status S) a.pc
      ((m.perform C (a.op.map .customer)).status C) := by
  have hself := Machine.status_perform_self hok hC
  generalize hsst : m.status S = sst at h
  rw [hC] at h
  cases h with
  | chosen h => rcases h with h | h <;> cases h
  | acquired hs h => rcases h with h | h <;> cases h
  | ask h =>
    subst ha
    show Meeting i k eatIn (.ask i) ((m.perform C (.acquire _)).status S) (.meet i eatIn)
      ((m.perform C (.acquire _)).status C)
    rw [hs]
    have hS : (m.perform C (.acquire (.orderTakerBusy k))).status S = .ready :=
      (Machine.status_acquire_of_ne hne.symm _).trans hsst
    rw [hS]
    rcases near_acquire hok hC (.orderTakerBusy k) with hacquiring | hready
    · rw [hacquiring]
      exact .askMeet
    · -- the order taker has the lock
      have hlock : ((m.locks (.orderTakerBusy k)).acquire C).owner = some S :=
        (hok.lock (.orderTakerBusy k)).owner_acquire (howner rfl)
      have hheld : ¬ ((m.locks (.orderTakerBusy k)).acquire C).HeldBy C :=
        fun hheld => hne (Option.some_injective _ (hheld.symm.trans hlock))
      change (m.acquire C _).status C = .ready at hready
      unfold Machine.acquire Machine.setStatus at hready
      simp only [Function.update_self, if_neg hheld] at hready
      cases hready
  | called h =>
    subst ha
    show Meeting i k eatIn (.ordered i) ((m.perform C (.acquire _)).status S) (.meet i eatIn)
      ((m.perform C (.acquire _)).status C)
    rw [hs, waiting_perform hok hne.symm hsst (.acquire _) nofun nofun]
    exact .meet (near_acquire hok hC _)
  | meet h =>
    subst ha
    show Meeting i k eatIn (.ordered i) ((m.perform C (.release _)).status S) (.order i eatIn)
      ((m.perform C (.release _)).status C)
    rw [waiting_perform hok hne.symm hsst (.release _) nofun nofun,
      show (m.perform C (.release _)).status C = .ready from hself (.release _)]
    exact .order
  | order =>
    subst ha
    show Meeting i k eatIn (.ordered i) (m.status S) (.ordered i eatIn) (m.status C)
    rw [hsst, hC]
    exact .ordered
  | ordered =>
    subst ha
    show Meeting i k eatIn (.ordered i) ((m.perform C (.signal _ _)).status S)
      (.awaitResponse i eatIn) ((m.perform C (.signal _ _)).status C)
    rw [hs, honly.symm.signal hok hC hsst, show (m.perform C (.signal _ _)).status C = .ready from
      hself (.signal _ _)]
    exact .awaitResponse (Or.inl rfl)
  | awaitResponse h =>
    subst ha hsst
    show Meeting i k eatIn (.ordered i) ((m.perform C (.wait _ _)).status S) (.pay i eatIn)
      ((m.perform C (.wait _ _)).status C)
    rw [hs, honly.symm.wait hok]
    exact .respond (late_or_ready_perform hok hne.symm (Or.inl h) _)
  | responded h => rcases h with h | h <;> cases h
  | pay h =>
    subst ha
    show Meeting i k eatIn (.paid i) ((m.perform C (.signal _ _)).status S) (.paid i eatIn)
      ((m.perform C (.signal _ _)).status C)
    rw [hs, honly.symm.signal hok hC hsst, show (m.perform C (.signal _ _)).status C = .ready from
      hself (.signal _ _)]
    exact .paid (Or.inl rfl)
  | paid h =>
    subst ha hsst
    show Meeting i k eatIn (.paid i) ((m.perform C (.wait _ _)).status S) (.getToken i eatIn)
      ((m.perform C (.wait _ _)).status C)
    rw [hs, honly.symm.wait hok]
    exact .number (late_or_ready_perform hok hne.symm (Or.inl h) _)
  | told token h => rcases h with h | h <;> cases h
  | add token hs h => rcases h with h | h <;> cases h
  | added token h => rcases h with h | h <;> cases h
  | leave token h => rcases h with h | h <;> cases h

end

end Meeting

end Nachos.Restaurant
