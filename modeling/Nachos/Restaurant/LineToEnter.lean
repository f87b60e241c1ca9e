import Nachos.Restaurant.Ordering

/-!
# The line to enter and the tables

What the routines do with `lineToEnterRest` and `count_NumTablesAvailable`, which belong to
`lock_MrCr_LineToEnterRest`. Only six points of the program do anything with them.

* `apart_program`: what all other points leave as it is.
* `keeps_line`: who has the lock.
-/

namespace Nachos.Restaurant

open Nachos.Lib Nachos.Threads

/-! ## Points of the program -/

/-- The points at which the line or the tables change, or the lock is released. -/
def Pc.AtLine : Pc → Prop
  | .customer (.joinLineToEnter _) | .customer (.leaveLineToEnter _) => True
  | .customer (.freeTable _) => True
  | .manager (.line _ .look) | .manager (.line _ (.seat _)) | .manager (.line _ .leave) => True
  | _ => False

/-- The customer `i` has not been let in. -/
def Pc.Outside (i : ℕ) : Pc → Prop
  | .customer (.chooseEatIn j) | .customer (.joinLineToEnter j) => j = i
  | _ => False

/-- The customer `i` eats in, has left the line and keeps its table. -/
def Pc.Inside (i : ℕ) : Pc → Prop
  | .customer (.lineToOrder j eatIn) | .customer (.joinLineToOrder j eatIn) => eatIn = true ∧ j = i
  | .customer (.called j eatIn) | .customer (.meet j eatIn) => eatIn = true ∧ j = i
  | .customer (.order j eatIn) | .customer (.ordered j eatIn) => eatIn = true ∧ j = i
  | .customer (.awaitResponse j eatIn) | .customer (.pay j eatIn) => eatIn = true ∧ j = i
  | .customer (.paid j eatIn) | .customer (.getToken j eatIn) => eatIn = true ∧ j = i
  | .customer (.prepare j eatIn _) => eatIn = true ∧ j = i
  | .customer (.sit j _) | .customer (.seated j) | .customer (.awaitFood j) => j = i
  | .customer (.served j) | .customer (.eat j) | .customer (.leaveTable j) => j = i
  | .customer (.freeTable j) => j = i
  | _ => False

/-- Threads that are neither customers nor in the middle of `checkLineToEnterRest`. -/
def Pc.Away : Pc → Prop
  | .customer _ | .manager (.line _ .look) | .manager (.line _ (.seat _)) => False
  | .manager (.line _ .leave) => False
  | _ => True

/-- The lock of the line, if a thread has it. -/
def holdsLine (_ : Shared) (p : Pc) (l : LockName) : Prop := p.AtLine ∧ l = .lineToEnterRest

/-- The line and the tables are the same. -/
structure SameLine (s s' : Shared) : Prop where
  length : s'.countLineToEnterRestLength = s.countLineToEnterRestLength
  line : s'.lineToEnterRest = s.lineToEnterRest
  tables : s'.countNumTablesAvailable = s.countNumTablesAvailable
  admitted : s'.history.admitted = s.history.admitted
  left : s'.history.left = s.history.left

/-- A call that neither wakes nor delays anyone in the line, and does not release its lock. -/
def ApartOp : Op LockName CVName Pc → Prop
  | .release l => l ≠ .lineToEnterRest
  | .wait c l => (∀ i, c ≠ .lineToEnterRest i) ∧ l ≠ .lineToEnterRest
  | .signal c _ | .broadcast c _ => ∀ i, c ≠ .lineToEnterRest i
  | .fork q => q.Away ∨ q = .customer .start
  | .acquire _ | .yield | .finish => True

/-- **What the other points do.** -/
structure Apart (s : Shared) (p : Pc) (a : Act Pc) : Prop where
  same : SameLine s a.shared
  call : ApartOp a.op
  atLine : a.pc.AtLine → a.op = .acquire .lineToEnterRest
  seat : ∀ k c, a.pc ≠ .manager (.line k (.seat c))
  leaveLine : ∀ i, a.pc ≠ .customer (.leaveLineToEnter i)
  inside : ∀ i, a.pc.Inside i → p.Inside i
  outside : ∀ i, a.pc.Outside i →
    p.Outside i ∨ p = .customer .create ∧ i = s.countNumCustomers

theorem Apart.of_away {s : Shared} {p : Pc} {a : Act Pc} (hsame : SameLine s a.shared)
    (hcall : ApartOp a.op) (haway : a.pc.Away) : Apart s p a := by
  refine ⟨hsame, hcall, ?_, ?_, ?_, ?_, ?_⟩
  · intro hline
    generalize a.pc = q at haway hline
    unfold Pc.AtLine at hline
    split at hline <;> first | exact haway.elim | exact hline.elim
  · intro k c hpc
    rw [hpc] at haway
    exact haway
  · intro i hpc
    rw [hpc] at haway
    exact haway
  · intro i hinside
    generalize a.pc = q at haway hinside
    cases q <;> first | exact haway.elim | exact hinside.elim
  · intro i houtside
    generalize a.pc = q at haway houtside
    cases q <;> first | exact haway.elim | exact houtside.elim

/-- Where a routine is in another one. -/
theorem Apart.of_map {α : Type} {s : Shared} {p : Pc} {a : Act α} {f : α → Pc}
    (hsame : SameLine s a.shared) (hcall : ApartOp (a.op.map f)) (haway : ∀ q, (f q).Away) :
    Apart s p (a.map f) :=
  Apart.of_away hsame hcall (haway _)

theorem apart_customer (random : ℕ) (s : Shared) {p : CustomerAt}
    (h : ¬ (Pc.customer p).AtLine) :
    Apart s (.customer p) ((customer random s p).map .customer) := by
  cases p
  case create =>
    refine ⟨⟨rfl, rfl, rfl, rfl, rfl⟩, ?_, ?_, ?_, ?_, ?_, ?_⟩
    · rintro ⟨⟩
    · rintro ⟨⟩
    · rintro _ _ ⟨⟩
    · rintro _ ⟨⟩
    · rintro _ ⟨⟩
    · rintro i rfl
      exact Or.inr ⟨rfl, rfl⟩
  case chooseEatIn id =>
    simp only [customer]
    split_ifs
    all_goals refine ⟨⟨rfl, rfl, rfl, rfl, rfl⟩, trivial, ?_, ?_, ?_, ?_, ?_⟩
    all_goals first
      | exact fun _ => rfl
      | exact fun i h => Or.inl h
      | exact fun i h => absurd h.1 Bool.false_ne_true
      | rintro _ _ ⟨⟩
      | rintro _ ⟨⟩
      | rintro ⟨⟩
  case prepare id eatIn token =>
    simp only [customer]
    split_ifs with heatIn
    all_goals refine ⟨⟨rfl, rfl, rfl, rfl, rfl⟩, trivial, ?_, ?_, ?_, ?_, ?_⟩
    all_goals first
      | exact fun i h => ⟨heatIn, h⟩
      | rintro _ _ ⟨⟩
      | rintro _ ⟨⟩
      | rintro ⟨⟩
  case leaveTable id =>
    refine ⟨⟨rfl, rfl, rfl, rfl, rfl⟩, trivial, fun _ => rfl, ?_, ?_, fun _ h => h, ?_⟩
    · rintro _ _ ⟨⟩
    · rintro _ ⟨⟩
    · rintro _ ⟨⟩
  all_goals first
    | exact absurd trivial h
    | skip
  all_goals
    simp only [customer]
    try split_ifs
  all_goals
    refine ⟨⟨rfl, rfl, rfl, rfl, rfl⟩, ?_, ?_, ?_, ?_, ?_, ?_⟩
  all_goals first
    | exact trivial
    | exact fun _ h => h
    | rintro _ _ ⟨⟩
    | rintro _ ⟨⟩
    | rintro ⟨⟩
    | exact ⟨by rintro _ ⟨⟩, by rintro ⟨⟩⟩

theorem apart_service {s : Shared} {p : Pc} {k : ℕ} {q : ServiceAt} {f : Option ServiceAt → Pc}
    (hf : ∀ q, (f q).Away) : Apart s p ((serviceCustomer k s q).map f) := by
  cases q
  all_goals
    simp only [serviceCustomer]
    try split_ifs
  all_goals
    apply Apart.of_map _ _ hf
    · exact ⟨rfl, rfl, rfl, rfl, rfl⟩
    · first
        | exact trivial
        | exact ⟨by rintro _ ⟨⟩, by rintro ⟨⟩⟩
        | rintro _ ⟨⟩
        | rintro ⟨⟩

theorem apart_bag {s : Shared} {p : Pc} {isManager : Bool} {q : BagAt} {f : Option BagAt → Pc}
    (hf : ∀ q, (f q).Away) : Apart s p ((bagOrder isManager s q).map f) := by
  have hwrites := bagOrder_writes isManager s q
  have hcalls := bagOrder_calls isManager s q
  apply Apart.of_map _ _ hf
  · generalize (bagOrder isManager s q).shared = s' at hwrites
    rw [hwrites]
    exact ⟨rfl, rfl, rfl, rfl, rfl⟩
  · cases hop : (bagOrder isManager s q).op <;> rw [hop] at hcalls
    case release l => rcases hcalls with rfl | rfl | rfl <;> rintro ⟨⟩
    case broadcast c l => rcases hcalls with ⟨rfl, -⟩ | ⟨rfl, -⟩ <;> rintro _ ⟨⟩
    all_goals first
      | exact trivial
      | exact hcalls.elim

theorem apart_cookManager {s : Shared} {p : Pc} {i : ℕ} {q : ManageCookAt}
    {go : Option ManageCookAt → Pc} (hgo : ∀ q, (go q).Away) :
    Apart s p (manageCook go i s q) := by
  cases q
  all_goals
    simp only [manageCook]
    try split_ifs
  all_goals
    apply Apart.of_away _ _ (hgo _)
    · exact ⟨rfl, rfl, rfl, rfl, rfl⟩
    · first
        | exact trivial
        | exact ⟨by rintro _ ⟨⟩, by rintro ⟨⟩⟩
        | exact Or.inl trivial
        | rintro _ ⟨⟩
        | rintro ⟨⟩

theorem apart_manager (s : Shared) {p : ManagerAt} (h : ¬ (Pc.manager p).AtLine) :
    Apart s (.manager p) (manager s p) := by
  cases p
  case service id rounds q =>
    apply apart_service
    rintro (- | q)
    · cases rounds <;> exact trivial
    · exact trivial
  case bag id q =>
    apply apart_bag
    rintro (- | q) <;> exact trivial
  case inventory id i q =>
    apply Apart.of_map
    · cases q
      all_goals
        simp only [orderInventoryFood]
        try split_ifs
      all_goals exact ⟨rfl, rfl, rfl, rfl, rfl⟩
    · cases q
      all_goals
        simp only [orderInventoryFood]
        try split_ifs
      all_goals first
        | exact trivial
        | rintro _ ⟨⟩
        | rintro ⟨⟩
    · rintro (- | q)
      · simp only
        split_ifs <;> exact trivial
      · exact trivial
  case cook id i q =>
    rw [manager]
    apply apart_cookManager
    rintro (- | q)
    · simp only
      split_ifs <;> exact trivial
    · exact trivial
  case line id q =>
    cases q
    case enter =>
      refine ⟨⟨rfl, rfl, rfl, rfl, rfl⟩, trivial, fun _ => rfl, ?_, ?_, ?_, ?_⟩
      · rintro _ _ ⟨⟩
      · rintro _ ⟨⟩
      · rintro _ ⟨⟩
      · rintro _ ⟨⟩
    all_goals exact absurd trivial h
  case exit id q =>
    apply Apart.of_map
    · cases q <;> exact ⟨rfl, rfl, rfl, rfl, rfl⟩
    · cases q
      · exact trivial
      · rintro ⟨⟩
    · rintro (q | b) <;> exact trivial
  case exited id b => cases b <;> exact Apart.of_away ⟨rfl, rfl, rfl, rfl, rfl⟩ trivial trivial
  all_goals
    simp only [manager]
    try split_ifs
  all_goals
    refine Apart.of_away ⟨rfl, rfl, rfl, rfl, rfl⟩ ?_ trivial
    first
      | exact trivial
      | rintro _ ⟨⟩
      | rintro ⟨⟩

theorem apart_orderTaker (s : Shared) (p : OrderTakerAt) :
    Apart s (.orderTaker p) ((orderTaker s p).map .orderTaker) := by
  cases p
  case service id q =>
    rw [orderTaker, Action.map_map]
    apply apart_service
    rintro (- | q) <;> exact trivial
  case bag id q =>
    rw [orderTaker, Action.map_map]
    apply apart_bag
    rintro (- | q) <;> exact trivial
  case exit id q =>
    rw [orderTaker, Action.map_map]
    apply Apart.of_map
    · cases q <;> exact ⟨rfl, rfl, rfl, rfl, rfl⟩
    · cases q
      · exact trivial
      · rintro ⟨⟩
    · rintro (q | b) <;> exact trivial
  case exited id b => cases b <;> exact Apart.of_away ⟨rfl, rfl, rfl, rfl, rfl⟩ trivial trivial
  case created id => exact Apart.of_away ⟨rfl, rfl, rfl, rfl, rfl⟩ (by rintro ⟨⟩) trivial
  all_goals exact Apart.of_away ⟨rfl, rfl, rfl, rfl, rfl⟩ trivial trivial

theorem apart_cook (s : Shared) (p : CookAt) : Apart s (.cook p) ((cook s p).map .cook) := by
  cases p
  case exit id q =>
    rw [cook, Action.map_map]
    apply Apart.of_map
    · cases q <;> exact ⟨rfl, rfl, rfl, rfl, rfl⟩
    · cases q
      · exact trivial
      · rintro ⟨⟩
    · rintro (q | (- | -)) <;> exact trivial
  all_goals
    simp only [cook]
    try split_ifs
  all_goals
    refine Apart.of_away ⟨rfl, rfl, rfl, rfl, rfl⟩ ?_ trivial
    first
      | exact trivial
      | exact ⟨by rintro _ ⟨⟩, by rintro ⟨⟩⟩
      | rintro _ ⟨⟩
      | rintro ⟨⟩

theorem apart_waiter (s : Shared) (p : WaiterAt) :
    Apart s (.waiter p) ((waiter s p).map .waiter) := by
  cases p
  all_goals
    simp only [waiter]
    try split_ifs
  all_goals
    refine Apart.of_away ⟨rfl, rfl, rfl, rfl, rfl⟩ ?_ trivial
    first
      | exact trivial
      | exact ⟨by rintro _ ⟨⟩, by rintro ⟨⟩⟩
      | rintro _ ⟨⟩
      | rintro ⟨⟩

/-- **Every other point** of the program. -/
theorem apart_program {p : Pc} (h : ¬ p.AtLine) (x : ℕ) (s : Shared) :
    Apart s p (program p x s) := by
  cases p with
  | main routines =>
    cases routines with
    | nil => exact Apart.of_away ⟨rfl, rfl, rfl, rfl, rfl⟩ trivial trivial
    | cons routine rest =>
      refine Apart.of_away ⟨rfl, rfl, rfl, rfl, rfl⟩ ?_ trivial
      cases routine
      case customer => exact Or.inr rfl
      all_goals exact Or.inl trivial
  | customer p => exact apart_customer x s h
  | manager p => exact apart_manager s h
  | orderTaker p => exact apart_orderTaker s p
  | waiter p => exact apart_waiter s p
  | cook p => exact apart_cook s p

/-- **The lock of the line.** -/
theorem keeps_line (p : Pc) (x : ℕ) (s : Shared) :
    Machine.Keeps holdsLine s p (program p x s) := by
  by_cases h : p.AtLine
  · constructor
    · rintro l ⟨hline, rfl⟩
      unfold Pc.AtLine at h
      split at h
      · exact ⟨trivial, rfl⟩
      · exact absurd hline id
      · exact absurd hline id
      · simp only [program, manager, checkLineToEnterRest] at hline ⊢
        split_ifs at hline ⊢
        · exact ⟨trivial, rfl⟩
        · exact hline.elim
      · exact ⟨trivial, rfl⟩
      · exact absurd hline id
      · exact h.elim
    · rintro q l hfork -
      unfold Pc.AtLine at h
      split at h
      case h_4 =>
        simp only [program, manager, checkLineToEnterRest] at hfork
        split_ifs at hfork <;> cases hfork
      all_goals first
        | exact h
        | cases hfork
  · have hapart := apart_program h x s
    constructor
    · rintro l ⟨hline, rfl⟩
      rw [hapart.atLine hline]
      exact Or.inl rfl
    · rintro q l hfork ⟨hline, -⟩
      have hcall := hapart.call
      rw [hfork] at hcall
      rcases hcall with haway | rfl
      · unfold Pc.AtLine at hline
        split at hline <;> first | exact haway.elim | exact hline.elim
      · exact hline

end Nachos.Restaurant
