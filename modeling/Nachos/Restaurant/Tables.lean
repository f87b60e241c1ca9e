import Nachos.Restaurant.LineToEnter

/-!
# Tables and the line to enter

The manager reads the last customer of the line, takes a table for it and signals it. The customer
takes itself out of the line only when it has the lock again, by making the line one shorter.

* `line_conserved`: while a customer that was signalled is still in the line, nobody joins the
  line, no table is taken and the lock is handed over: then line and tables are conserved.
-/

namespace Nachos.Restaurant

open Nachos.Lib Nachos.Threads

/-! ## The property -/

/-- The customer `i`, which is the thread `u`, waits to enter and is not signalled. -/
def Waits (m : Simulation) (u i : ℕ) : Prop :=
  m.pc u = some (.customer (.leaveLineToEnter i)) ∧
    m.status u = .waiting (.lineToEnterRest i) .lineToEnterRest

/-- **The line and the tables** are conserved, if there were `initial` tables. -/
structure LineConserved (initial : ℤ) (m : Simulation) : Prop where
  line_nodup : (m.locks .lineToEnterRest).state = .free →
    ((List.range m.shared.countLineToEnterRestLength).map m.shared.lineToEnterRest).Nodup
  line : (m.locks .lineToEnterRest).state = .free → ∀ i,
    i ∈ (List.range m.shared.countLineToEnterRestLength).map m.shared.lineToEnterRest ↔
      ∃ u, Waits m u i
  tables : m.shared.countNumTablesAvailable +
    (m.shared.history.admitted.length - m.shared.history.left.length) = initial
  tables_nonneg : 0 ≤ m.shared.countNumTablesAvailable
  inside_nonneg : m.shared.history.left.length ≤ m.shared.history.admitted.length
  /-- Nobody is admitted twice. -/
  once : ∀ i, m.shared.history.admitted.count i ≤ 1
  /-- Who eats in was admitted. -/
  admitted : ∀ u p i, m.pc u = some p → p.Inside i → m.shared.history.admitted.count i = 1

/-! ## The condition -/

/-- The customer is signalled, and has not taken itself out of the line. -/
def Leaving (m : Simulation) (u : ℕ) : Prop :=
  match m.pc u, m.status u with
  | some (.customer (.leaveLineToEnter _)), .waiting _ _ => False
  | some (.customer (.leaveLineToEnter _)), _ => True
  | _, _ => False

instance (m : Simulation) : DecidablePred (Leaving m) := fun u => by
  unfold Leaving
  split <;> infer_instance

/-- The customer joins the line, or the manager takes a table for the last one in it. -/
def Pc.Changes : Pc → Prop
  | .customer (.joinLineToEnter _) | .manager (.line _ (.seat _)) => True
  | _ => False

instance : DecidablePred Pc.Changes := fun p => by
  unfold Pc.Changes
  split <;> infer_instance

/-- Another customer is signalled, and has not taken itself out of the line. -/
def OtherLeaving (m : Simulation) (t : ℕ) : Prop := ∃ u ≤ m.numThreads, u ≠ t ∧ Leaving m u

instance (m : Simulation) (t : ℕ) : Decidable (OtherLeaving m t) :=
  inferInstanceAs (Decidable (∃ u ≤ m.numThreads, u ≠ t ∧ Leaving m u))

/-- **The condition**: while another customer is signalled and has not taken itself out, nobody
    joins the line, no table is taken, and the lock is released only to somebody who has queued
    for it. -/
def LineGuard (m : Simulation) (tx : ℕ × ℕ) : Prop :=
  OtherLeaving m tx.1 → m.status tx.1 = .ready → ∀ p ∈ m.pc tx.1,
    ¬ p.Changes ∧ ((program p tx.2 m.shared).op = .release .lineToEnterRest →
      (m.locks .lineToEnterRest).waitingThreads ≠ [])

instance (m : Simulation) (tx : ℕ × ℕ) : Decidable (LineGuard m tx) := by
  unfold LineGuard
  infer_instance

/-! ## The line -/

/-- The first `n` entries of the line are those who wait, each once. -/
structure InLine (m : Simulation) (n : ℕ) : Prop where
  mem : ∀ a < n, ∃ u, Waits m u (m.shared.lineToEnterRest a)
  inj : ∀ a b, a < n → b < n → m.shared.lineToEnterRest a = m.shared.lineToEnterRest b → a = b
  all : ∀ u i, Waits m u i → ∃ a < n, m.shared.lineToEnterRest a = i

/-- **The line**, with at most one customer in it who is signalled. -/
structure LineInv (m : Simulation) : Prop where
  ok : m.Ok
  owns : m.Owns (m.Has holdsLine)
  customers : m.Numbered Pc.customerID (·.countNumCustomers)
  waits : ∀ u i l, m.status u = .waiting (.lineToEnterRest i) l → Waits m u i
  waiting : ∀ u i c l, m.pc u = some (.customer (.leaveLineToEnter i)) →
    m.status u = .waiting c l → c = .lineToEnterRest i
  broadcasts : ∀ u c l, m.status u = .broadcasting c l → ∀ i, c ≠ .lineToEnterRest i
  one : ∀ u v, Leaving m u → Leaving m v → u = v
  free : (m.locks .lineToEnterRest).state = .free → ∀ u, ¬ Leaving m u
  line : ∃ n, InLine m n ∧ ((∀ u, ¬ Leaving m u) → m.shared.countLineToEnterRestLength = n) ∧
    ∀ u, Leaving m u → m.shared.countLineToEnterRestLength = n + 1
  seat : ∀ u k c, m.pc u = some (.manager (.line k (.seat c))) → m.status u = .ready ∧
    0 < m.shared.countLineToEnterRestLength ∧
    c = m.shared.lineToEnterRest (m.shared.countLineToEnterRestLength - 1) ∧
    0 < m.shared.countNumTablesAvailable

theorem leaving_iff {m : Simulation} {u : ℕ} : Leaving m u ↔
    (∃ i, m.pc u = some (.customer (.leaveLineToEnter i))) ∧
      ∀ c l, m.status u ≠ .waiting c l := by
  unfold Leaving
  split
  next i c l hpc hstatus =>
    refine iff_of_false id ?_
    rintro ⟨-, h⟩
    exact h c l hstatus
  next i hpc hstatus => exact iff_of_true trivial ⟨⟨i, hpc⟩, fun c l h => hstatus c l h⟩
  next hnone hpc =>
    refine iff_of_false id ?_
    rintro ⟨⟨i, hi⟩, -⟩
    exact hnone i hi

/-! ### Threads that change nothing in the line -/

/-- The thread neither joins the line nor takes a table. -/
structure Quiet (a : Act Pc) : Prop where
  signal : ∀ i l, a.op ≠ .signal (.lineToEnterRest i) l
  broadcast : ∀ c l, a.op = .broadcast c l → ∀ i, c ≠ .lineToEnterRest i
  wait : ∀ i l, a.op ≠ .wait (.lineToEnterRest i) l
  pc : ∀ i, a.pc ≠ .customer (.leaveLineToEnter i)
  fork : ∀ q, a.op = .fork q → ∀ i, q ≠ .customer (.leaveLineToEnter i)

theorem Quiet.of_release {a : Act Pc} (hop : a.op = .yield ∨ ∃ l, a.op = .release l)
    (hpc : ∀ i, a.pc ≠ .customer (.leaveLineToEnter i)) : Quiet a := by
  constructor
  case pc => exact hpc
  all_goals rcases hop with hop | ⟨l, hop⟩ <;> simp [hop]

theorem quiet_program {p : Pc} (h : ¬ p.Changes) (x : ℕ) (s : Shared) : Quiet (program p x s) := by
  by_cases hline : p.AtLine
  · unfold Pc.AtLine at hline
    split at hline
    · exact absurd trivial h
    · exact Quiet.of_release (Or.inr ⟨_, rfl⟩) (by rintro _ ⟨⟩)
    · exact Quiet.of_release (Or.inr ⟨_, rfl⟩) (by rintro _ ⟨⟩)
    · simp only [program, manager, checkLineToEnterRest]
      split_ifs
      · exact Quiet.of_release (Or.inl rfl) (by rintro _ ⟨⟩)
      · exact Quiet.of_release (Or.inr ⟨_, rfl⟩) (by rintro _ ⟨⟩)
    · exact absurd trivial h
    · exact Quiet.of_release (Or.inr ⟨_, rfl⟩) (by rintro _ ⟨⟩)
    · exact hline.elim
  · have hapart := apart_program hline x s
    have hcall := hapart.call
    refine ⟨?_, ?_, ?_, hapart.leaveLine, ?_⟩
    · intro i l hop
      rw [hop] at hcall
      exact hcall i rfl
    · intro c l hop
      rwa [hop] at hcall
    · intro i l hop
      rw [hop] at hcall
      exact hcall.1 i rfl
    · rintro q hop i rfl
      rw [hop] at hcall
      rcases hcall with h | h
      · exact h
      · cases h

section

variable {m : Simulation} {t x : ℕ} {r : Pc} {a : Act Pc}

/-- Another thread waits on a condition of the line as long as nobody signals it. -/
theorem waiting_after (hok : m.Ok) (hr : m.pc t = some r) {u : ℕ} (hu : u ≠ t)
    (hsignal : ∀ i l, a.op = .signal (.lineToEnterRest i) l →
      m.status u ≠ .waiting (.lineToEnterRest i) l)
    (hbroadcast : ∀ c l, a.op = .broadcast c l → ∀ i, c ≠ .lineToEnterRest i) (i : ℕ)
    (l : LockName) : (after m t a).status u = .waiting (.lineToEnterRest i) l ↔
      m.status u = .waiting (.lineToEnterRest i) l := by
  have hok' := hok.compute (by simp [hr] : m.pc t ≠ none) a.shared a.pc
  rcases Machine.status_perform_of_ne hok' hu a.op with
    hsame | ⟨k, -, hold, hnew⟩ | ⟨c, k, hop, hold, hnew⟩
  · rw [show (after m t a).status u = m.status u from hsame]
  · rw [show (after m t a).status u = .ready from hnew,
      show m.status u = .acquiring k from hold]
    exact iff_of_false nofun nofun
  · rw [show (after m t a).status u = .woken k from hnew,
      show m.status u = .waiting c k from hold]
    refine iff_of_false nofun ?_
    intro heq
    cases heq
    rcases hop with hop | hop
    · exact hsignal i l hop hold
    · exact hbroadcast _ l hop i rfl

theorem pc_after_iff (hok : m.Ok) {u : ℕ} (hu : u ≠ t) {q : Pc} (hfork : a.op ≠ .fork q) :
    (after m t a).pc u = some q ↔ m.pc u = some q := by
  constructor
  · intro hq
    rcases Machine.pc_computed hok hq with ⟨rfl, -⟩ | ⟨-, hold⟩ | ⟨-, hop⟩
    · exact absurd rfl hu
    · exact hold
    · exact absurd hop hfork
  · intro hq
    exact Machine.pc_computed_of_ne hok hu hq a

/-- Those who wait and are not signalled by the call. -/
theorem waits_after_iff (hok : m.Ok) (hr : m.pc t = some r) {u : ℕ} (hu : u ≠ t)
    (hsignal : ∀ i l, a.op = .signal (.lineToEnterRest i) l →
      m.status u ≠ .waiting (.lineToEnterRest i) l)
    (hbroadcast : ∀ c l, a.op = .broadcast c l → ∀ i, c ≠ .lineToEnterRest i)
    (hfork : ∀ q, a.op = .fork q → ∀ i, q ≠ .customer (.leaveLineToEnter i)) (i : ℕ) :
    Waits (after m t a) u i ↔ Waits m u i :=
  and_congr (pc_after_iff hok hu fun hop => hfork _ hop i rfl)
    (waiting_after hok hr hu hsignal hbroadcast i _)

/-- Those who are leaving, if the call does not signal them. -/
theorem leaving_after_iff (h : LineInv m) (hr : m.pc t = some r) {u : ℕ} (hu : u ≠ t)
    (hsignal : ∀ i l, a.op = .signal (.lineToEnterRest i) l →
      m.status u ≠ .waiting (.lineToEnterRest i) l)
    (hbroadcast : ∀ c l, a.op = .broadcast c l → ∀ i, c ≠ .lineToEnterRest i)
    (hfork : ∀ q, a.op = .fork q → ∀ i, q ≠ .customer (.leaveLineToEnter i)) :
    Leaving (after m t a) u ↔ Leaving m u := by
  have hok' := h.ok.compute (by simp [hr] : m.pc t ≠ none) a.shared a.pc
  rw [leaving_iff, leaving_iff]
  have hpc (i : ℕ) := pc_after_iff (q := .customer (.leaveLineToEnter i)) h.ok hu
    fun hop => hfork _ hop i rfl
  constructor
  · rintro ⟨⟨i, hi⟩, hnot⟩
    rw [hpc] at hi
    refine ⟨⟨i, hi⟩, ?_⟩
    intro c l hc
    cases h.waiting u i c l hi hc
    exact hnot _ l ((waiting_after h.ok hr hu hsignal hbroadcast i l).mpr hc)
  · rintro ⟨⟨i, hi⟩, hnot⟩
    refine ⟨⟨i, (hpc i).mpr hi⟩, ?_⟩
    intro c l hc
    rcases Machine.status_perform_of_ne hok' hu a.op with
      hsame | ⟨k, -, -, hnew⟩ | ⟨c', k, -, -, hnew⟩
    · exact hnot c l (hsame.symm.trans hc)
    · cases hc.symm.trans hnew
    · cases hc.symm.trans hnew

namespace LineInv

/-- The thread that runs does not wait. -/
theorem not_waits (ht : m.status t = .ready) (i : ℕ) : ¬ Waits m t i := by
  rintro ⟨-, hst⟩
  cases ht.symm.trans hst

theorem leaving_self (hr : m.pc t = some r) (ht : m.status t = .ready) :
    Leaving m t ↔ ∃ i, r = .customer (.leaveLineToEnter i) := by
  rw [leaving_iff, hr]
  constructor
  · rintro ⟨⟨i, hi⟩, -⟩
    exact ⟨i, Option.some_injective _ hi⟩
  · rintro ⟨i, rfl⟩
    refine ⟨⟨i, rfl⟩, ?_⟩
    intro c l hc
    cases ht.symm.trans hc

theorem quiet_waits (h : LineInv m) (hr : m.pc t = some r) (ht : m.status t = .ready)
    (ha : Quiet a) (u i : ℕ) : Waits (after m t a) u i ↔ Waits m u i := by
  by_cases hut : u = t
  · subst hut
    refine iff_of_false ?_ (not_waits ht i)
    rintro ⟨hpc, -⟩
    rw [Machine.pc_computed_self h.ok (by simp [hr] : m.pc u ≠ none)] at hpc
    exact ha.pc i (Option.some_injective _ hpc)
  · exact waits_after_iff h.ok hr hut (fun j l hop => absurd hop (ha.signal j l)) ha.broadcast
      ha.fork i

theorem quiet_leaving (h : LineInv m) (hr : m.pc t = some r) (ha : Quiet a) (u : ℕ) :
    Leaving (after m t a) u ↔ u ≠ t ∧ Leaving m u := by
  by_cases hut : u = t
  · subst hut
    refine iff_of_false ?_ (fun hboth => hboth.1 rfl)
    rw [leaving_iff, Machine.pc_computed_self h.ok (by simp [hr] : m.pc u ≠ none)]
    rintro ⟨⟨i, hi⟩, -⟩
    exact ha.pc i (Option.some_injective _ hi)
  · rw [leaving_after_iff h hr hut (fun j l hop => absurd hop (ha.signal j l)) ha.broadcast
      ha.fork]
    exact (and_iff_right hut).symm

/-- Two threads are not inside the lock of the line. -/
theorem eq_of_atLine (h : LineInv m) (hr : m.pc t = some r) (ht : m.status t = .ready)
    (hline : r.AtLine) {u : ℕ} {q : Pc} (hq : m.pc u = some q) (hu : m.status u = .ready)
    (hqline : q.AtLine) : u = t := by
  refine h.owns.unique (l := .lineToEnterRest) ⟨q, hq, hqline, rfl⟩ ⟨r, hr, hline, rfl⟩ ?_ ?_
  · rw [hu]
    exact not_false
  · rw [ht]
    exact not_false

/-- Somebody else who is leaving is one of the threads. -/
theorem otherLeaving (h : LineInv m) {u : ℕ} (hut : u ≠ t) (hu : Leaving m u) :
    OtherLeaving m t := by
  refine ⟨u, ?_, hut, hu⟩
  by_contra hlt
  obtain ⟨⟨i, hi⟩, -⟩ := leaving_iff.mp hu
  rw [h.ok.unborn u (by omega)] at hi
  cases hi

theorem waiting_old (hok : m.Ok) (hr : m.pc t = some r) {u : ℕ} (hut : u ≠ t) {c : CVName}
    {l : LockName} (hc : (after m t a).status u = .waiting c l) : m.status u = .waiting c l := by
  have hok' := hok.compute (by simp [hr] : m.pc t ≠ none) a.shared a.pc
  rcases Machine.status_perform_of_ne hok' hut a.op with
    hsame | ⟨k, -, -, hnew⟩ | ⟨c', k, -, -, hnew⟩
  · exact hsame.symm.trans hc
  · cases hc.symm.trans hnew
  · cases hc.symm.trans hnew

theorem broadcasting_old (hok : m.Ok) (hr : m.pc t = some r) {u : ℕ} (hut : u ≠ t) {c : CVName}
    {l : LockName} (hc : (after m t a).status u = .broadcasting c l) :
    m.status u = .broadcasting c l := by
  have hok' := hok.compute (by simp [hr] : m.pc t ≠ none) a.shared a.pc
  rcases Machine.status_perform_of_ne hok' hut a.op with
    hsame | ⟨k, -, -, hnew⟩ | ⟨c', k, -, -, hnew⟩
  · exact hsame.symm.trans hc
  · cases hc.symm.trans hnew
  · cases hc.symm.trans hnew

/-- The thread itself waits or broadcasts only if it calls that. -/
theorem op_of_waiting (hok : m.Ok) (hr : m.pc t = some r) (ht : m.status t = .ready) {c : CVName}
    {l : LockName} (hc : (after m t a).status t = .waiting c l) : a.op = .wait c l := by
  have hok' := hok.compute (by simp [hr] : m.pc t ≠ none) a.shared a.pc
  have hself := Machine.status_perform_self hok' ht a.op
  rw [show (Machine.perform _ t a.op).status t = .waiting c l from hc] at hself
  cases hop : a.op <;> rw [hop] at hself
  case wait => rcases hself with h | h <;> cases h; rfl
  case acquire => rcases hself with h | h <;> cases h
  case broadcast => rcases hself with h | h <;> cases h
  all_goals cases hself

theorem op_of_broadcasting (hok : m.Ok) (hr : m.pc t = some r) (ht : m.status t = .ready)
    {c : CVName} {l : LockName} (hc : (after m t a).status t = .broadcasting c l) :
    a.op = .broadcast c l := by
  have hok' := hok.compute (by simp [hr] : m.pc t ≠ none) a.shared a.pc
  have hself := Machine.status_perform_self hok' ht a.op
  rw [show (Machine.perform _ t a.op).status t = .broadcasting c l from hc] at hself
  cases hop : a.op <;> rw [hop] at hself
  case broadcast => rcases hself with h | h <;> cases h; rfl
  case acquire => rcases hself with h | h <;> cases h
  case wait => rcases hself with h | h <;> cases h
  all_goals cases hself

/-- Somebody in the middle of `checkLineToEnterRest` is ready. -/
theorem ready_after (hok : m.Ok) (hr : m.pc t = some r) {u : ℕ} (hut : u ≠ t)
    (hu : m.status u = .ready) : (after m t a).status u = .ready := by
  have hok' := hok.compute (by simp [hr] : m.pc t ≠ none) a.shared a.pc
  rcases Machine.status_perform_of_ne hok' hut a.op with
    hsame | ⟨k, -, hold, -⟩ | ⟨c', k, -, hold, -⟩
  · exact hsame.trans hu
  · cases hu.symm.trans hold
  · cases hu.symm.trans hold

/-- What does not change the line. -/
theorem line_quiet {p : Pc} (h : ¬ p.Changes) (x : ℕ) (s : Shared) :
    (program p x s).shared.lineToEnterRest = s.lineToEnterRest ∧
      s.countNumTablesAvailable ≤ (program p x s).shared.countNumTablesAvailable ∧
      ((program p x s).shared.countLineToEnterRestLength = s.countLineToEnterRestLength ∧
          (∀ i, p ≠ .customer (.leaveLineToEnter i)) ∨
        (∃ i, p = .customer (.leaveLineToEnter i)) ∧
          (program p x s).shared.countLineToEnterRestLength =
            s.countLineToEnterRestLength - 1) := by
  by_cases hline : p.AtLine
  · unfold Pc.AtLine at hline
    split at hline
    · exact absurd trivial h
    · exact ⟨rfl, le_rfl, Or.inr ⟨⟨_, rfl⟩, rfl⟩⟩
    · refine ⟨rfl, by simp [program, customer, Action.map], Or.inl ⟨rfl, ?_⟩⟩
      rintro _ ⟨⟩
    · simp only [program, manager, checkLineToEnterRest]
      split_ifs <;> exact ⟨rfl, le_rfl, Or.inl ⟨rfl, by rintro _ ⟨⟩⟩⟩
    · exact absurd trivial h
    · refine ⟨rfl, le_rfl, Or.inl ⟨rfl, ?_⟩⟩
      rintro _ ⟨⟩
    · exact hline.elim
  · have hsame := (apart_program hline x s).same
    refine ⟨hsame.line, hsame.tables.ge, Or.inl ⟨hsame.length, ?_⟩⟩
    rintro i rfl
    exact hline trivial

/-- Where the manager comes to take a table. -/
theorem admit_program {p : Pc} {s : Shared} {k c : ℕ}
    (h : (program p x s).pc = .manager (.line k (.seat c))) :
    p = .manager (.line k .look) ∧ (program p x s).op = .yield ∧ (program p x s).shared = s ∧
      0 < s.countLineToEnterRestLength ∧
      c = s.lineToEnterRest (s.countLineToEnterRestLength - 1) ∧
      0 < s.countNumTablesAvailable := by
  by_cases hline : p.AtLine
  · unfold Pc.AtLine at hline
    split at hline
    case h_4 j =>
      simp only [program, manager, checkLineToEnterRest] at h ⊢
      split_ifs at h ⊢ with hroom
      · cases h
        exact ⟨rfl, rfl, rfl, hroom.1, rfl, hroom.2⟩
      · cases h
    all_goals first
      | exact hline.elim
      | cases h
  · exact absurd h ((apart_program hline x s).seat k c)

theorem fork_seat {p q : Pc} {s : Shared} (h : (program p x s).op = .fork q) (k c : ℕ) :
    q ≠ .manager (.line k (.seat c)) := by
  rintro rfl
  by_cases hline : p.AtLine
  · unfold Pc.AtLine at hline
    split at hline
    case h_4 =>
      simp only [program, manager, checkLineToEnterRest] at h
      split_ifs at h <;> cases h
    all_goals first
      | exact hline.elim
      | cases h
  · have hcall := (apart_program hline x s).call
    rw [h] at hcall
    rcases hcall with haway | heq
    · exact haway
    · cases heq

/-- A thread releases the lock of the line only in the line. -/
theorem release_atLine {p : Pc} {s : Shared}
    (h : (program p x s).op = .release .lineToEnterRest ∨
      ∃ c, (program p x s).op = .wait c .lineToEnterRest) : p.AtLine := by
  by_contra hline
  have hcall := (apart_program hline x s).call
  rcases h with hop | ⟨c, hop⟩
  · rw [hop] at hcall
    exact hcall rfl
  · rw [hop] at hcall
    exact hcall.2 rfl

/-- A thread that does not join the line does not wait with its lock. -/
theorem not_wait_of_quiet {p : Pc} {s : Shared} (h : ¬ p.Changes) (c : CVName) :
    (program p x s).op ≠ .wait c .lineToEnterRest := by
  intro hop
  have hline := release_atLine (Or.inr ⟨c, hop⟩)
  unfold Pc.AtLine at hline
  split at hline
  case h_4 =>
    simp only [program, manager, checkLineToEnterRest] at hop
    split_ifs at hop <;> cases hop
  all_goals first
    | exact h trivial
    | exact hline
    | cases hop

/-- **A thread that changes nothing in the line**, but may leave it. -/
theorem after_quiet (h : LineInv m) (hr : m.pc t = some r) (ht : m.status t = .ready)
    (hchanges : ¬ r.Changes) (hguard : LineGuard m (t, x)) :
    LineInv (after m t (program r x m.shared)) := by
  have hs := step_after hr ht x
  have hquiet := quiet_program hchanges x m.shared
  have hwaits := h.quiet_waits hr ht hquiet
  have hleaving := h.quiet_leaving hr hquiet
  have hself := leaving_self hr ht
  obtain ⟨hline, htables, hlength⟩ := line_quiet hchanges x m.shared
  have hshared : (after m t (program r x m.shared)).shared = (program r x m.shared).shared :=
    Machine.shared_perform _ t _
  refine ⟨h.ok.step hs, h.owns.step h.ok hs (fun p _ _ => keeps_line p x m.shared)
    (fun _ _ _ _ _ _ _ _ hl => hl),
    h.customers.step h.ok hs fun p _ => takes_customer p x m.shared, ?_, ?_, ?_, ?_, ?_, ?_, ?_⟩
  · intro u i l hc
    by_cases hut : u = t
    · subst hut
      exact absurd (op_of_waiting h.ok hr ht hc) (hquiet.wait i l)
    · exact (hwaits u i).mpr (h.waits u i l (waiting_old h.ok hr hut hc))
  · intro u i c l hpc hc
    have hut : u ≠ t := by
      rintro rfl
      rw [Machine.pc_computed_self h.ok (by simp [hr] : m.pc u ≠ none)] at hpc
      exact hquiet.pc i (Option.some_injective _ hpc)
    exact h.waiting u i c l ((pc_after_iff h.ok hut fun hop => hquiet.fork _ hop i rfl).mp hpc)
      (waiting_old h.ok hr hut hc)
  · intro u c l hc
    by_cases hut : u = t
    · subst hut
      exact hquiet.broadcast c l (op_of_broadcasting h.ok hr ht hc)
    · exact h.broadcasts u c l (broadcasting_old h.ok hr hut hc)
  · intro u v hu hv
    exact h.one u v ((hleaving u).mp hu).2 ((hleaving v).mp hv).2
  · intro hfree u hu
    obtain ⟨hut, hu⟩ := (hleaving u).mp hu
    by_cases hrelease : (program r x m.shared).op = .release .lineToEnterRest
    · refine ((hguard (h.otherLeaving hut hu) ht r hr).2 hrelease) ?_
      have hok' := h.ok.compute (by simp [hr] : m.pc t ≠ none) (program r x m.shared).shared
        (program r x m.shared).pc
      apply Machine.waitingThreads_of_release hok' (t := t)
      unfold after at hfree
      rwa [hrelease] at hfree
    · have hwait (c : CVName) : (program r x m.shared).op ≠ .wait c .lineToEnterRest :=
        not_wait_of_quiet hchanges c
      have hbefore : ((m.compute t (program r x m.shared).shared (program r x m.shared).pc).locks
          .lineToEnterRest).state = .free := Machine.state_perform hrelease hwait hfree
      exact h.free hbefore u hu
  · obtain ⟨n, hin, hnone, hsome⟩ := h.line
    refine ⟨n, ⟨?_, ?_, ?_⟩, ?_, ?_⟩
    · intro b hb
      rw [hshared, hline]
      obtain ⟨u, hu⟩ := hin.mem b hb
      exact ⟨u, (hwaits u _).mpr hu⟩
    · rw [hshared, hline]
      exact hin.inj
    · intro u i hu
      rw [hshared, hline]
      exact hin.all u i ((hwaits u i).mp hu)
    · intro hall
      rw [hshared]
      rcases hlength with ⟨hlen, hnot⟩ | ⟨hleave, hlen⟩
      · rw [hlen]
        apply hnone
        intro u hu
        refine hall u ((hleaving u).mpr ⟨?_, hu⟩)
        rintro rfl
        obtain ⟨i, hi⟩ := hself.mp hu
        exact hnot i hi
      · rw [hlen, hsome t (hself.mpr hleave)]
        rfl
    · intro u hu
      obtain ⟨hut, hu⟩ := (hleaving u).mp hu
      rw [hshared]
      rcases hlength with ⟨hlen, -⟩ | ⟨hleave, -⟩
      · rw [hlen]
        exact hsome u hu
      · exact absurd (h.one u t hu (hself.mpr hleave)) hut
  · intro u k c hpc
    rw [hshared, hline]
    rcases Machine.pc_computed h.ok hpc with ⟨rfl, heq⟩ | ⟨hut, hold⟩ | ⟨-, hfork⟩
    · obtain ⟨rfl, hop, hsame, hlen, hc, htable⟩ := admit_program heq.symm
      have hok' := h.ok.compute (by simp [hr] : m.pc u ≠ none)
        (program (.manager (.line k .look)) x m.shared).shared
        (program (.manager (.line k .look)) x m.shared).pc
      have hready := Machine.status_perform_self hok' ht
        (program (.manager (.line k .look)) x m.shared).op
      rw [hop] at hready
      rw [hsame]
      exact ⟨by rw [after, hop]; exact hready, hlen, hc, htable⟩
    · obtain ⟨hready, hlen, hc, htable⟩ := h.seat u k c hold
      refine ⟨ready_after h.ok hr hut hready, ?_⟩
      rcases hlength with ⟨hlen', -⟩ | ⟨⟨i, rfl⟩, -⟩
      · rw [hlen']
        exact ⟨hlen, hc, htable.trans_le htables⟩
      · exact absurd (h.eq_of_atLine hr ht trivial hold hready trivial) hut
    · exact absurd rfl (fork_seat hfork k c)

/-- Nobody is leaving when the line changes. -/
theorem none_leaving (h : LineInv m) (hr : m.pc t = some r) (ht : m.status t = .ready)
    (hchanges : r.Changes) (hguard : LineGuard m (t, x)) (u : ℕ) : ¬ Leaving m u := by
  intro hu
  by_cases hut : u = t
  · subst hut
    obtain ⟨i, rfl⟩ := (leaving_self hr ht).mp hu
    exact hchanges
  · exact (hguard (h.otherLeaving hut hu) ht r hr).1 hchanges

/-- The customers who wait are known by their numbers. -/
theorem eq_of_waits (h : LineInv m) {u v i : ℕ} (hu : Waits m u i) (hv : Waits m v i) : u = v :=
  h.customers.unique u v _ _ i hu.1 hv.1 rfl rfl

/-- **A customer joins the line.** -/
theorem after_join (h : LineInv m) {i : ℕ} (hr : m.pc t = some (.customer (.joinLineToEnter i)))
    (ht : m.status t = .ready) (hguard : LineGuard m (t, x)) :
    LineInv (after m t (program (.customer (.joinLineToEnter i)) x m.shared)) ∧
      ∀ u, ¬ Leaving (after m t (program (.customer (.joinLineToEnter i)) x m.shared)) u := by
  have hs := step_after hr ht x
  have hnone := h.none_leaving hr ht trivial hguard
  have hpct := Machine.pc_computed_self h.ok (by simp [hr] : m.pc t ≠ none)
    (program (.customer (.joinLineToEnter i)) x m.shared)
  have hshared : (after m t (program (.customer (.joinLineToEnter i)) x m.shared)).shared =
      (program (.customer (.joinLineToEnter i)) x m.shared).shared := Machine.shared_perform _ t _
  generalize ha : program (.customer (.joinLineToEnter i)) x m.shared = a at *
  have hop : a.op = .wait (.lineToEnterRest i) .lineToEnterRest := by rw [← ha]; rfl
  have hpc : a.pc = .customer (.leaveLineToEnter i) := by rw [← ha]; rfl
  have hok' := h.ok.compute (by simp [hr] : m.pc t ≠ none) a.shared a.pc
  have hstatus : (after m t a).status t = .waiting (.lineToEnterRest i) .lineToEnterRest := by
    unfold after
    rw [hop]
    apply Machine.status_wait hok'
    intro u l hu
    have hwait := (h.waits u i l hu).2
    cases hwait.symm.trans hu
    rfl
  have hwaitst : Waits (after m t a) t i := ⟨hpct.trans (congrArg some hpc), hstatus⟩
  have hwaits {u : ℕ} (hut : u ≠ t) (j : ℕ) : Waits (after m t a) u j ↔ Waits m u j :=
    waits_after_iff h.ok hr hut (by rw [hop]; exact nofun) (by rw [hop]; exact nofun)
      (by rw [hop]; exact nofun) j
  have hleaving (u : ℕ) : ¬ Leaving (after m t a) u := by
    by_cases hut : u = t
    · subst hut
      rw [leaving_iff]
      rintro ⟨-, hnot⟩
      exact hnot _ _ hstatus
    · rw [leaving_after_iff h hr hut (by rw [hop]; exact nofun) (by rw [hop]; exact nofun)
        (by rw [hop]; exact nofun)]
      exact hnone u
  have hself {j : ℕ} (hj : Waits (after m t a) t j) : j = i := by
    cases hj.2.symm.trans hstatus
    rfl
  refine ⟨⟨h.ok.step hs, h.owns.step h.ok hs (fun p _ _ => keeps_line p x m.shared)
    (fun _ _ _ _ _ _ _ _ hl => hl),
    h.customers.step h.ok hs fun p _ => takes_customer p x m.shared, ?_, ?_, ?_, ?_, ?_, ?_, ?_⟩,
    hleaving⟩
  · intro u j l hc
    by_cases hut : u = t
    · subst hut
      cases hstatus.symm.trans hc
      exact hwaitst
    · exact (hwaits hut j).mpr (h.waits u j l (waiting_old h.ok hr hut hc))
  · intro u j c l hpcu hc
    by_cases hut : u = t
    · subst hut
      cases hstatus.symm.trans hc
      cases hwaitst.1.symm.trans hpcu
      rfl
    · exact h.waiting u j c l ((pc_after_iff h.ok hut (by rw [hop]; exact nofun)).mp hpcu)
        (waiting_old h.ok hr hut hc)
  · intro u c l hc
    by_cases hut : u = t
    · subst hut
      cases hstatus.symm.trans hc
    · exact h.broadcasts u c l (broadcasting_old h.ok hr hut hc)
  · intro u v hu
    exact absurd hu (hleaving u)
  · intro _ u
    exact hleaving u
  · obtain ⟨n, hin, hlen, -⟩ := h.line
    have hlen := hlen hnone
    have hline : a.shared.lineToEnterRest =
        Function.update m.shared.lineToEnterRest m.shared.countLineToEnterRestLength i := by
      rw [← ha]
      rfl
    have hnew {b : ℕ} (hb : b < n) : m.shared.lineToEnterRest b ≠ i := by
      rintro rfl
      obtain ⟨u, hu⟩ := hin.mem b hb
      have hut := h.customers.unique u t _ _ _ hu.1 hr rfl rfl
      subst hut
      cases hu.1.symm.trans hr
    have hold {b : ℕ} (hb : b < n) : Function.update m.shared.lineToEnterRest n i b =
        m.shared.lineToEnterRest b := Function.update_of_ne hb.ne _ _
    rw [hlen] at hline
    refine ⟨n + 1, ⟨?_, ?_, ?_⟩, ?_, ?_⟩
    · intro b hb
      rw [hshared, hline]
      by_cases hbn : b = n
      · rw [hbn, Function.update_self]
        exact ⟨t, hwaitst⟩
      · rw [hold (by omega)]
        obtain ⟨u, hu⟩ := hin.mem b (by omega)
        refine ⟨u, (hwaits ?_ _).mpr hu⟩
        rintro rfl
        exact not_waits ht _ hu
    · intro b b' hb hb' heq
      rw [hshared, hline] at heq
      by_cases hbn : b = n <;> by_cases hbn' : b' = n
      · omega
      · rw [hbn, Function.update_self, hold (by omega)] at heq
        exact absurd heq.symm (hnew (by omega))
      · rw [hbn', Function.update_self, hold (by omega)] at heq
        exact absurd heq (hnew (by omega))
      · rw [hold (by omega), hold (by omega)] at heq
        exact hin.inj b b' (by omega) (by omega) heq
    · intro u j hu
      rw [hshared, hline]
      by_cases hut : u = t
      · subst hut
        exact ⟨n, Nat.lt_succ_self n, by rw [Function.update_self, hself hu]⟩
      · obtain ⟨b, hb, hj⟩ := hin.all u j ((hwaits hut j).mp hu)
        exact ⟨b, by omega, (hold hb).trans hj⟩
    · intro _
      rw [hshared, ← hlen, ← ha]
      rfl
    · intro u hu
      exact absurd hu (hleaving u)
  · intro u k c hpcu
    rcases Machine.pc_computed h.ok hpcu with ⟨rfl, heq⟩ | ⟨hut, hold⟩ | ⟨-, hfork⟩
    · cases heq.trans hpc
    · obtain ⟨hready, -⟩ := h.seat u k c hold
      exact absurd (h.eq_of_atLine hr ht trivial hold hready trivial) hut
    · rw [hop] at hfork
      cases hfork

/-- **The manager lets the last customer in.** -/
theorem after_seat (h : LineInv m) {k c : ℕ} (hr : m.pc t = some (.manager (.line k (.seat c))))
    (ht : m.status t = .ready) (hguard : LineGuard m (t, x)) :
    LineInv (after m t (program (.manager (.line k (.seat c))) x m.shared)) ∧
      ∃ w, Waits m w c ∧ ∀ u,
        Leaving (after m t (program (.manager (.line k (.seat c))) x m.shared)) u ↔ u = w := by
  have hs := step_after hr ht x
  have hnone := h.none_leaving hr ht trivial hguard
  have hpct := Machine.pc_computed_self h.ok (by simp [hr] : m.pc t ≠ none)
    (program (.manager (.line k (.seat c))) x m.shared)
  have hshared : (after m t (program (.manager (.line k (.seat c))) x m.shared)).shared =
      (program (.manager (.line k (.seat c))) x m.shared).shared := Machine.shared_perform _ t _
  obtain ⟨-, hpos, hc, htable⟩ := h.seat t k c hr
  generalize ha : program (.manager (.line k (.seat c))) x m.shared = a at *
  have hop : a.op = .signal (.lineToEnterRest c) .lineToEnterRest := by rw [← ha]; rfl
  have hpc : a.pc = .manager (.line k .leave) := by rw [← ha]; rfl
  have hline : a.shared.lineToEnterRest = m.shared.lineToEnterRest := by rw [← ha]; rfl
  have hlength : a.shared.countLineToEnterRestLength = m.shared.countLineToEnterRestLength := by
    rw [← ha]
    rfl
  have hok' := h.ok.compute (by simp [hr] : m.pc t ≠ none) a.shared a.pc
  obtain ⟨n, hin, hlen, -⟩ := h.line
  have hlen := hlen hnone
  obtain ⟨w, hw⟩ := hin.mem (m.shared.countLineToEnterRestLength - 1) (by omega)
  rw [← hc] at hw
  have hwt : w ≠ t := by
    rintro rfl
    exact not_waits ht _ hw
  have hwoken : (after m t a).status w = .woken .lineToEnterRest := by
    unfold after
    rw [hop]
    apply Machine.status_signal_only hok' hw.2
    intro u l hu
    exact h.eq_of_waits (h.waits u c l hu) hw
  have hleavingw : Leaving (after m t a) w := by
    rw [leaving_iff]
    refine ⟨⟨c, Machine.pc_computed_of_ne h.ok hwt hw.1 a⟩, ?_⟩
    intro c' l hc'
    cases hwoken.symm.trans hc'
  -- the others
  have hsignal {u : ℕ} (huw : u ≠ w) (i : ℕ) (l : LockName)
      (heq : a.op = .signal (.lineToEnterRest i) l) :
      m.status u ≠ .waiting (.lineToEnterRest i) l := by
    rw [hop] at heq
    cases heq
    intro hu
    exact huw (h.eq_of_waits (h.waits u c _ hu) hw)
  have hbroadcast (c' : CVName) (l : LockName) (heq : a.op = .broadcast c' l) (i : ℕ) :
      c' ≠ .lineToEnterRest i := by
    rw [hop] at heq
    cases heq
  have hfork (q : Pc) (heq : a.op = .fork q) (i : ℕ) : q ≠ .customer (.leaveLineToEnter i) := by
    rw [hop] at heq
    cases heq
  have hnott (i : ℕ) : (after m t a).pc t ≠ some (.customer (.leaveLineToEnter i)) := by
    rw [hpct, hpc]
    exact nofun
  have hwaits (u i : ℕ) : Waits (after m t a) u i ↔ Waits m u i ∧ u ≠ w := by
    by_cases hut : u = t
    · subst hut
      exact iff_of_false (fun hu => hnott i hu.1) fun hu => not_waits ht i hu.1
    · by_cases huw : u = w
      · subst huw
        refine iff_of_false ?_ fun hu => hu.2 rfl
        intro hu
        cases hwoken.symm.trans hu.2
      · rw [waits_after_iff h.ok hr hut (hsignal huw) hbroadcast hfork]
        exact (and_iff_left huw).symm
  have hleaving {u : ℕ} (hu : Leaving (after m t a) u) : u = w := by
    by_contra huw
    by_cases hut : u = t
    · subst hut
      obtain ⟨⟨i, hi⟩, -⟩ := leaving_iff.mp hu
      exact hnott i hi
    · exact hnone u ((leaving_after_iff h hr hut (hsignal huw) hbroadcast hfork).mp hu)
  refine ⟨⟨h.ok.step hs, h.owns.step h.ok hs (fun p _ _ => keeps_line p x m.shared)
    (fun _ _ _ _ _ _ _ _ hl => hl),
    h.customers.step h.ok hs fun p _ => takes_customer p x m.shared, ?_, ?_, ?_, ?_, ?_, ?_, ?_⟩,
    w, hw, fun u => ⟨hleaving, fun hu => hu ▸ hleavingw⟩⟩
  · intro u j l hcu
    by_cases hut : u = t
    · subst hut
      have heq := op_of_waiting h.ok hr ht hcu
      rw [hop] at heq
      cases heq
    · refine (hwaits u j).mpr ⟨h.waits u j l (waiting_old h.ok hr hut hcu), ?_⟩
      rintro rfl
      cases hwoken.symm.trans hcu
  · intro u j c' l hpcu hcu
    have hut : u ≠ t := by
      rintro rfl
      exact hnott j hpcu
    exact h.waiting u j c' l ((pc_after_iff h.ok hut (by rw [hop]; exact nofun)).mp hpcu)
      (waiting_old h.ok hr hut hcu)
  · intro u c' l hcu
    by_cases hut : u = t
    · subst hut
      have heq := op_of_broadcasting h.ok hr ht hcu
      rw [hop] at heq
      cases heq
    · exact h.broadcasts u c' l (broadcasting_old h.ok hr hut hcu)
  · intro u v hu hv
    rw [hleaving hu, hleaving hv]
  · intro hfree
    -- the manager has the lock
    have hbefore : ((m.compute t a.shared a.pc).locks .lineToEnterRest).state = .free := by
      apply Machine.state_perform (t := t) _ _ hfree
      · rw [hop]
        exact nofun
      · rw [hop]
        exact nofun
    have howner := h.owns t .lineToEnterRest ⟨_, hr, trivial, rfl⟩ (by
      rw [ht]
      exact not_false)
    rw [((h.ok.lock .lineToEnterRest).free_iff).mp hbefore] at howner
    cases howner
  · refine ⟨n - 1, ⟨?_, ?_, ?_⟩, ?_, ?_⟩
    · intro b hb
      rw [hshared, hline]
      obtain ⟨u, hu⟩ := hin.mem b (by omega)
      refine ⟨u, (hwaits u _).mpr ⟨hu, ?_⟩⟩
      rintro rfl
      have heq : m.shared.lineToEnterRest b = c := by
        cases hu.2.symm.trans hw.2
        rfl
      rw [hc] at heq
      have hlast := hin.inj b _ (by omega) (by omega) heq
      omega
    · intro b b' hb hb' heq
      rw [hshared, hline] at heq
      exact hin.inj b b' (by omega) (by omega) heq
    · intro u i hu
      rw [hshared, hline]
      obtain ⟨hu, huw⟩ := (hwaits u i).mp hu
      obtain ⟨b, hb, hi⟩ := hin.all u i hu
      refine ⟨b, ?_, hi⟩
      have hlast : b ≠ n - 1 := by
        rintro rfl
        rw [← hlen, ← hc] at hi
        subst hi
        exact huw (h.eq_of_waits hu hw)
      omega
    · intro hall
      exact absurd hleavingw (hall w)
    · intro u _
      rw [hshared, hlength]
      omega
  · intro u k' c' hpcu
    rcases Machine.pc_computed h.ok hpcu with ⟨rfl, heq⟩ | ⟨hut, hold⟩ | ⟨-, hforked⟩
    · cases heq.trans hpc
    · obtain ⟨hready, -⟩ := h.seat u k' c' hold
      exact absurd (h.eq_of_atLine hr ht trivial hold hready trivial) hut
    · rw [hop] at hforked
      cases hforked

/-- A step in which no thread goes on, and nobody in the line is signalled. -/
theorem of_same {m' : Simulation} (h : LineInv m) (hok : m'.Ok)
    (howns : m'.Owns (m'.Has holdsLine)) (hpc : m'.pc = m.pc) (hshared : m'.shared = m.shared)
    (hwaiting : ∀ u c l, m'.status u = .waiting c l → m.status u = .waiting c l)
    (hline : ∀ u i l, m.status u = .waiting (.lineToEnterRest i) l →
      m'.status u = .waiting (.lineToEnterRest i) l)
    (hbroadcasting : ∀ u c l, m'.status u = .broadcasting c l → m.status u = .broadcasting c l)
    (hready : ∀ u, m.status u = .ready → m'.status u = .ready)
    (hfree : (m'.locks .lineToEnterRest).state = .free →
      (m.locks .lineToEnterRest).state = .free) :
    LineInv m' ∧ ∀ u, Leaving m' u ↔ Leaving m u := by
  have hwaits (u i : ℕ) : Waits m' u i ↔ Waits m u i := by
    unfold Waits
    rw [hpc]
    exact and_congr_right fun _ => ⟨hwaiting u _ _, hline u i _⟩
  have hleaving (u : ℕ) : Leaving m' u ↔ Leaving m u := by
    rw [leaving_iff, leaving_iff, hpc]
    apply and_congr_right
    rintro ⟨i, hi⟩
    constructor
    · intro hnot c l hc
      cases h.waiting u i c l hi hc
      exact hnot _ l (hline u i l hc)
    · intro hnot c l hc
      exact hnot c l (hwaiting u c l hc)
  refine ⟨⟨hok, howns, ⟨?_, ?_⟩, ?_, ?_, ?_, ?_, ?_, ?_, ?_⟩, hleaving⟩
  · rw [hpc, hshared]
    exact h.customers.lt
  · rw [hpc]
    exact h.customers.unique
  · intro u i l hc
    exact (hwaits u i).mpr (h.waits u i l (hwaiting u _ l hc))
  · intro u i c l hi hc
    rw [hpc] at hi
    exact h.waiting u i c l hi (hwaiting u c l hc)
  · intro u c l hc
    exact h.broadcasts u c l (hbroadcasting u c l hc)
  · intro u v hu hv
    exact h.one u v ((hleaving u).mp hu) ((hleaving v).mp hv)
  · intro hf u hu
    exact h.free (hfree hf) u ((hleaving u).mp hu)
  · obtain ⟨n, hin, hnone, hsome⟩ := h.line
    rw [hshared]
    refine ⟨n, ⟨?_, ?_, ?_⟩, ?_, ?_⟩
    · rw [hshared]
      intro b hb
      obtain ⟨u, hu⟩ := hin.mem b hb
      exact ⟨u, (hwaits u _).mpr hu⟩
    · rw [hshared]
      exact hin.inj
    · rw [hshared]
      intro u i hu
      exact hin.all u i ((hwaits u i).mp hu)
    · intro hall
      exact hnone fun u hu => hall u ((hleaving u).mpr hu)
    · intro u hu
      exact hsome u ((hleaving u).mp hu)
  · intro u k c hu
    rw [hpc] at hu
    rw [hshared]
    exact (h.seat u k c hu).imp_left (hready u)

/-- A thread acquires its lock again. -/
theorem after_woken (h : LineInv m) {l : LockName} (ht : m.status t = .woken l)
    (hs : simulationStep m (t, x) = .ok (m.acquire t l)) :
    LineInv (m.acquire t l) ∧ ∀ u, Leaving (m.acquire t l) u ↔ Leaving m u := by
  have howns := h.owns.step h.ok hs (fun p _ h => by cases ht.symm.trans h)
    fun p u q l _ h => by cases ht.symm.trans h
  have hself : (m.acquire t l).status t = .ready ∨ (m.acquire t l).status t = .acquiring l := by
    rw [Machine.acquire, Machine.setStatus]
    simp only [Function.update_self]
    split_ifs
    · exact Or.inl rfl
    · exact Or.inr rfl
  refine h.of_same (h.ok.step hs) howns rfl rfl ?_ ?_ ?_ ?_ ?_
  · intro u c k hc
    by_cases hut : u = t
    · subst hut
      rcases hself with hst | hst <;> cases hst.symm.trans hc
    · rwa [Machine.status_acquire_of_ne hut] at hc
  · intro u i k hc
    by_cases hut : u = t
    · subst hut
      cases ht.symm.trans hc
    · rwa [Machine.status_acquire_of_ne hut]
  · intro u c k hc
    by_cases hut : u = t
    · subst hut
      rcases hself with hst | hst <;> cases hst.symm.trans hc
    · rwa [Machine.status_acquire_of_ne hut] at hc
  · intro u hu
    by_cases hut : u = t
    · subst hut
      cases ht.symm.trans hu
    · rwa [Machine.status_acquire_of_ne hut]
  · intro hfree
    have hrelease : (Op.acquire l : Op LockName CVName Pc) ≠ .release .lineToEnterRest := by simp
    have hwait (c : CVName) : (Op.acquire l : Op LockName CVName Pc) ≠ .wait c .lineToEnterRest := by
      simp
    exact Machine.state_perform hrelease hwait (show
      ((m.perform t (.acquire l)).locks .lineToEnterRest).state = .free from hfree)

/-- A round of `Broadcast`. -/
theorem after_broadcast (h : LineInv m) {c : CVName} {l : LockName}
    (ht : m.status t = .broadcasting c l)
    (hs : simulationStep m (t, x) = .ok (m.broadcast t c l)) :
    LineInv (m.broadcast t c l) ∧ ∀ u, Leaving (m.broadcast t c l) u ↔ Leaving m u := by
  have howns := h.owns.step h.ok hs (fun p _ h => by cases ht.symm.trans h)
    fun p u q l _ h => by cases ht.symm.trans h
  have hself : (m.broadcast t c l).status t = .ready ∨
      (m.broadcast t c l).status t = .broadcasting c l := by
    unfold Machine.broadcast
    split_ifs
    · exact Or.inl (Function.update_self ..)
    · exact Or.inr (Function.update_self ..)
  have hother {u : ℕ} (hut : u ≠ t) : (m.broadcast t c l).status u = m.status u ∨
      m.status u = .waiting c l ∧ (m.broadcast t c l).status u = .woken l := by
    rcases Machine.status_perform_of_ne h.ok hut (.broadcast c l) with
      hsame | ⟨k, hop, -, -⟩ | ⟨c', k, hop, hold, hnew⟩
    · exact Or.inl hsame
    · rcases hop with hop | ⟨c', hop⟩ <;> cases hop
    · rcases hop with hop | hop
      · cases hop
      · injection hop with hc hl
        subst hc hl
        exact Or.inr ⟨hold, hnew⟩
  refine h.of_same (h.ok.step hs) howns (Machine.pc_broadcast m t c l)
    (Machine.shared_broadcast m t c l) ?_ ?_ ?_ ?_ ?_
  · intro u c' k hc
    by_cases hut : u = t
    · subst hut
      rcases hself with hst | hst <;> cases hst.symm.trans hc
    · rcases hother hut with hsame | ⟨-, hnew⟩
      · rwa [hsame] at hc
      · cases hc.symm.trans hnew
  · intro u i k hc
    have hut : u ≠ t := by
      rintro rfl
      cases ht.symm.trans hc
    rcases hother hut with hsame | ⟨hold, -⟩
    · rwa [hsame]
    · cases hold.symm.trans hc
      exact absurd rfl (h.broadcasts t _ l ht i)
  · intro u c' k hc
    by_cases hut : u = t
    · subst hut
      rcases hself with hst | hst
      · cases hst.symm.trans hc
      · cases hst.symm.trans hc
        exact ht
    · rcases hother hut with hsame | ⟨-, hnew⟩
      · rwa [hsame] at hc
      · cases hc.symm.trans hnew
  · intro u hu
    have hut : u ≠ t := by
      rintro rfl
      cases ht.symm.trans hu
    rcases hother hut with hsame | ⟨hold, -⟩
    · rwa [hsame]
    · cases hold.symm.trans hu
  · intro hfree
    have hrelease : (Op.broadcast c l : Op LockName CVName Pc) ≠ .release .lineToEnterRest := by
      simp
    have hwait (c' : CVName) : (Op.broadcast c l : Op LockName CVName Pc) ≠
        .wait c' .lineToEnterRest := by simp
    exact Machine.state_perform hrelease hwait (show
      ((m.perform t (.broadcast c l)).locks .lineToEnterRest).state = .free from hfree)

end LineInv

/-! ## The tables -/

/-- **The tables**, and who was let in. -/
structure TablesInv (initial : ℤ) (m : Simulation) : Prop where
  tables : m.shared.countNumTablesAvailable +
    (m.shared.history.admitted.length - m.shared.history.left.length) = initial
  tables_nonneg : 0 ≤ m.shared.countNumTablesAvailable
  admitted_nodup : m.shared.history.admitted.Nodup
  left_nodup : m.shared.history.left.Nodup
  left_admitted : ∀ i ∈ m.shared.history.left, i ∈ m.shared.history.admitted
  known : ∀ i ∈ m.shared.history.admitted, i < m.shared.countNumCustomers
  inside : ∀ u p i, m.pc u = some p → p.Inside i →
    i ∈ m.shared.history.admitted ∧ i ∉ m.shared.history.left
  outside : ∀ u p i, m.pc u = some p → p.Outside i → i ∉ m.shared.history.admitted
  leaving : ∀ u i, m.pc u = some (.customer (.leaveLineToEnter i)) → Leaving m u →
    i ∈ m.shared.history.admitted ∧ i ∉ m.shared.history.left
  waiting : ∀ u i, m.pc u = some (.customer (.leaveLineToEnter i)) → ¬ Leaving m u →
    i ∉ m.shared.history.admitted

theorem customerID_of_inside {p : Pc} {i : ℕ} (h : p.Inside i) : p.customerID = some i := by
  unfold Pc.Inside at h
  split at h
  all_goals first
    | exact congrArg some h.2
    | exact congrArg some h
    | exact h.elim

theorem customerID_of_outside {p : Pc} {i : ℕ} (h : p.Outside i) : p.customerID = some i := by
  unfold Pc.Outside at h
  split at h
  all_goals first
    | exact congrArg some h
    | exact h.elim

/-- Who is inside was so before, or leaves the line. -/
theorem inside_program {p : Pc} {s : Shared} {i : ℕ} (h : ¬ p.Changes)
    (hin : (program p x s).pc.Inside i) :
    (p.Inside i ∧ ∀ j, p ≠ .customer (.freeTable j)) ∨ p = .customer (.leaveLineToEnter i) := by
  by_cases hline : p.AtLine
  · unfold Pc.AtLine at hline
    split at hline
    · exact absurd trivial h
    · exact Or.inr (by rw [show _ = i from hin.2])
    · exact absurd hin id
    · simp only [program, manager, checkLineToEnterRest] at hin
      split_ifs at hin <;> exact hin.elim
    · exact absurd trivial h
    · exact absurd hin id
    · exact hline.elim
  · refine Or.inl ⟨(apart_program hline x s).inside i hin, ?_⟩
    rintro j rfl
    exact hline trivial

/-- Who is outside was so before, or comes. -/
theorem outside_program {p : Pc} {s : Shared} {i : ℕ} (h : ¬ p.Changes)
    (hout : (program p x s).pc.Outside i) :
    p.Outside i ∨ p = .customer .create ∧ i = s.countNumCustomers := by
  by_cases hline : p.AtLine
  · unfold Pc.AtLine at hline
    split at hline
    case h_4 =>
      simp only [program, manager, checkLineToEnterRest] at hout
      split_ifs at hout <;> exact hout.elim
    all_goals first
      | exact absurd trivial h
      | exact absurd hout id
      | exact hline.elim
  · exact (apart_program hline x s).outside i hout

/-- A table is taken only by the manager, and made available only by a customer that leaves. -/
theorem tables_program {p : Pc} (h : ¬ p.Changes) (x : ℕ) (s : Shared) :
    (program p x s).shared.history.admitted = s.history.admitted ∧
      ((program p x s).shared.history.left = s.history.left ∧
          (program p x s).shared.countNumTablesAvailable = s.countNumTablesAvailable ∨
        ∃ j, p = .customer (.freeTable j) ∧
          (program p x s).shared.history.left = s.history.left ++ [j] ∧
          (program p x s).shared.countNumTablesAvailable = s.countNumTablesAvailable + 1) := by
  by_cases hline : p.AtLine
  · unfold Pc.AtLine at hline
    split at hline
    · exact absurd trivial h
    · exact ⟨rfl, Or.inl ⟨rfl, rfl⟩⟩
    · exact ⟨rfl, Or.inr ⟨_, rfl, rfl, rfl⟩⟩
    · simp only [program, manager, checkLineToEnterRest]
      split_ifs <;> exact ⟨rfl, Or.inl ⟨rfl, rfl⟩⟩
    · exact absurd trivial h
    · exact ⟨rfl, Or.inl ⟨rfl, rfl⟩⟩
    · exact hline.elim
  · have hsame := (apart_program hline x s).same
    exact ⟨hsame.admitted, Or.inl ⟨hsame.left, hsame.tables⟩⟩

theorem countNumCustomers_le (p : Pc) (x : ℕ) (s : Shared) :
    s.countNumCustomers ≤ (program p x s).shared.countNumCustomers := by
  rcases (takes_customer p x s).1 with ⟨-, hcount⟩ | ⟨-, hcount⟩
  · exact hcount.ge
  · exact (Nat.le_succ _).trans hcount.ge

namespace TablesInv

variable {initial : ℤ}

theorem after_quiet (h : TablesInv initial m) (hline : LineInv m) (hr : m.pc t = some r)
    (ht : m.status t = .ready) (hchanges : ¬ r.Changes) :
    TablesInv initial (after m t (program r x m.shared)) := by
  have hquiet := quiet_program hchanges x m.shared
  have hleaving := hline.quiet_leaving hr hquiet
  have hshared : (after m t (program r x m.shared)).shared = (program r x m.shared).shared :=
    Machine.shared_perform _ t _
  have hcount := countNumCustomers_le r x m.shared
  obtain ⟨hadmitted, hleft⟩ := tables_program hchanges x m.shared
  -- who leaves its table is the customer itself
  have hstays {i : ℕ} (hi : i ∉ m.shared.history.left)
      (hne : ∀ j, r = .customer (.freeTable j) → i ≠ j) :
      i ∉ (program r x m.shared).shared.history.left := by
    rcases hleft with ⟨hsame, -⟩ | ⟨j, hj, hnew, -⟩
    · rwa [hsame]
    · rw [hnew]
      simp [hi, hne j hj]
  have hother {u i : ℕ} {p : Pc} (hut : u ≠ t) (hp : m.pc u = some p)
      (hi : p.customerID = some i) (j : ℕ) (hj : r = .customer (.freeTable j)) : i ≠ j := by
    rintro rfl
    subst hj
    exact hut (hline.customers.unique u t _ _ i hp hr hi rfl)
  refine ⟨?_, ?_, ?_, ?_, ?_, ?_, ?_, ?_, ?_, ?_⟩
  · rw [hshared, hadmitted]
    rcases hleft with ⟨hsame, htables⟩ | ⟨j, -, hnew, htables⟩
    · rw [hsame, htables]
      exact h.tables
    · rw [hnew, htables, List.length_append, List.length_singleton]
      have := h.tables
      push_cast
      omega
  · rw [hshared]
    exact h.tables_nonneg.trans (LineInv.line_quiet hchanges x m.shared).2.1
  · rw [hshared, hadmitted]
    exact h.admitted_nodup
  · rw [hshared]
    rcases hleft with ⟨hsame, -⟩ | ⟨j, rfl, hnew, -⟩
    · rw [hsame]
      exact h.left_nodup
    · rw [hnew, ← List.concat_eq_append]
      exact h.left_nodup.concat (h.inside t _ j hr rfl).2
  · rw [hshared, hadmitted]
    intro i hi
    rcases hleft with ⟨hsame, -⟩ | ⟨j, rfl, hnew, -⟩
    · rw [hsame] at hi
      exact h.left_admitted i hi
    · rw [hnew, List.mem_append, List.mem_singleton] at hi
      rcases hi with hi | rfl
      · exact h.left_admitted i hi
      · exact (h.inside t _ i hr rfl).1
  · rw [hshared, hadmitted]
    intro i hi
    exact (h.known i hi).trans_le hcount
  · intro u p i hp hin
    rw [hshared, hadmitted]
    rcases Machine.pc_computed hline.ok hp with ⟨rfl, rfl⟩ | ⟨hut, hold⟩ | ⟨-, hfork⟩
    · rcases inside_program hchanges hin with ⟨hinside, hfree⟩ | rfl
      · obtain ⟨hi, hi'⟩ := h.inside u r i hr hinside
        exact ⟨hi, hstays hi' fun j hj => absurd hj (hfree j)⟩
      · obtain ⟨hi, hi'⟩ := h.leaving u i hr ((LineInv.leaving_self hr ht).mpr ⟨i, rfl⟩)
        exact ⟨hi, hstays hi' nofun⟩
    · obtain ⟨hi, hi'⟩ := h.inside u p i hold hin
      exact ⟨hi, hstays hi' (hother hut hold (customerID_of_inside hin))⟩
    · cases ((takes_customer r x m.shared).2 p hfork).symm.trans (customerID_of_inside hin)
  · intro u p i hp hout
    rw [hshared, hadmitted]
    rcases Machine.pc_computed hline.ok hp with ⟨rfl, rfl⟩ | ⟨hut, hold⟩ | ⟨-, hfork⟩
    · rcases outside_program hchanges hout with houtside | ⟨-, rfl⟩
      · exact h.outside u r i hr houtside
      · intro hi
        exact absurd (h.known _ hi) (lt_irrefl _)
    · exact h.outside u p i hold hout
    · cases ((takes_customer r x m.shared).2 p hfork).symm.trans (customerID_of_outside hout)
  · intro u i hp hu
    rw [hshared, hadmitted]
    obtain ⟨hut, hu⟩ := (hleaving u).mp hu
    have hold := (pc_after_iff hline.ok hut fun hop => hquiet.fork _ hop i rfl).mp hp
    obtain ⟨hi, hi'⟩ := h.leaving u i hold hu
    exact ⟨hi, hstays hi' (hother hut hold rfl)⟩
  · intro u i hp hu
    rw [hshared, hadmitted]
    have hut : u ≠ t := by
      rintro rfl
      rw [Machine.pc_computed_self hline.ok (by simp [hr] : m.pc u ≠ none)] at hp
      exact hquiet.pc i (Option.some_injective _ hp)
    have hold := (pc_after_iff hline.ok hut fun hop => hquiet.fork _ hop i rfl).mp hp
    exact h.waiting u i hold fun hleave => hu ((hleaving u).mpr ⟨hut, hleave⟩)

theorem after_join (h : TablesInv initial m) (hline : LineInv m) {i : ℕ}
    (hr : m.pc t = some (.customer (.joinLineToEnter i))) (hnone : ∀ u, ¬ Leaving m u)
    (hleaving : ∀ u,
      ¬ Leaving (after m t (program (.customer (.joinLineToEnter i)) x m.shared)) u) :
    TablesInv initial (after m t (program (.customer (.joinLineToEnter i)) x m.shared)) := by
  have hpct := Machine.pc_computed_self hline.ok (by simp [hr] : m.pc t ≠ none)
    (program (.customer (.joinLineToEnter i)) x m.shared)
  have hshared : (after m t (program (.customer (.joinLineToEnter i)) x m.shared)).shared =
      (program (.customer (.joinLineToEnter i)) x m.shared).shared := Machine.shared_perform _ t _
  -- another thread is where it was
  have hold {u : ℕ} {p : Pc}
      (hp : (after m t (program (.customer (.joinLineToEnter i)) x m.shared)).pc u = some p) :
      u = t ∧ p = .customer (.leaveLineToEnter i) ∨ u ≠ t ∧ m.pc u = some p := by
    rcases Machine.pc_computed hline.ok hp with ⟨rfl, rfl⟩ | hold | ⟨-, hfork⟩
    · exact Or.inl ⟨rfl, rfl⟩
    · exact Or.inr hold
    · cases hfork
  have hout := h.outside t _ i hr rfl
  refine ⟨?_, ?_, ?_, ?_, ?_, ?_, ?_, ?_, ?_, ?_⟩
  · rw [hshared]
    exact h.tables
  · rw [hshared]
    exact h.tables_nonneg
  · rw [hshared]
    exact h.admitted_nodup
  · rw [hshared]
    exact h.left_nodup
  · rw [hshared]
    exact h.left_admitted
  · rw [hshared]
    exact h.known
  · intro u p j hp hin
    rw [hshared]
    rcases hold hp with ⟨-, rfl⟩ | ⟨-, hp⟩
    · exact hin.elim
    · exact h.inside u p j hp hin
  · intro u p j hp hout
    rw [hshared]
    rcases hold hp with ⟨-, rfl⟩ | ⟨-, hp⟩
    · exact hout.elim
    · exact h.outside u p j hp hout
  · intro u j _ hu
    exact absurd hu (hleaving u)
  · intro u j hp _
    rw [hshared]
    rcases hold hp with ⟨-, heq⟩ | ⟨-, hp⟩
    · cases heq
      exact hout
    · exact h.waiting u j hp (hnone u)

theorem after_seat (h : TablesInv initial m) (hline : LineInv m) {k c w : ℕ}
    (hr : m.pc t = some (.manager (.line k (.seat c)))) (hnone : ∀ u, ¬ Leaving m u)
    (hw : Waits m w c)
    (hleaving : ∀ u,
      Leaving (after m t (program (.manager (.line k (.seat c))) x m.shared)) u ↔ u = w) :
    TablesInv initial (after m t (program (.manager (.line k (.seat c))) x m.shared)) := by
  have hshared : (after m t (program (.manager (.line k (.seat c))) x m.shared)).shared =
      (program (.manager (.line k (.seat c))) x m.shared).shared := Machine.shared_perform _ t _
  have hadmitted : (program (.manager (.line k (.seat c))) x m.shared).shared.history.admitted =
      m.shared.history.admitted ++ [c] := rfl
  have hleft : (program (.manager (.line k (.seat c))) x m.shared).shared.history.left =
      m.shared.history.left := rfl
  -- another thread is where it was
  have hold {u : ℕ} {p : Pc}
      (hp : (after m t (program (.manager (.line k (.seat c))) x m.shared)).pc u = some p) :
      p = .manager (.line k .leave) ∨ m.pc u = some p := by
    rcases Machine.pc_computed hline.ok hp with ⟨-, rfl⟩ | ⟨-, hold⟩ | ⟨-, hfork⟩
    · exact Or.inl rfl
    · exact Or.inr hold
    · cases hfork
  have hnew : c ∉ m.shared.history.admitted := h.waiting w c hw.1 (hnone w)
  refine ⟨?_, ?_, ?_, ?_, ?_, ?_, ?_, ?_, ?_, ?_⟩
  · rw [hshared, hadmitted, hleft, List.length_append, List.length_singleton]
    show m.shared.countNumTablesAvailable - 1 + _ = initial
    have := h.tables
    push_cast
    omega
  · rw [hshared]
    show 0 ≤ m.shared.countNumTablesAvailable - 1
    have := (hline.seat t k c hr).2.2.2
    omega
  · rw [hshared, hadmitted, ← List.concat_eq_append]
    exact h.admitted_nodup.concat hnew
  · rw [hshared]
    exact h.left_nodup
  · rw [hshared]
    intro i hi
    exact List.mem_append_left _ (h.left_admitted i hi)
  · rw [hshared, hadmitted]
    intro i hi
    rw [List.mem_append, List.mem_singleton] at hi
    rcases hi with hi | rfl
    · exact h.known i hi
    · exact hline.customers.lt w _ i hw.1 rfl
  · intro u p i hp hin
    rw [hshared, hadmitted]
    rcases hold hp with rfl | hp
    · exact hin.elim
    · exact (h.inside u p i hp hin).imp_left (List.mem_append_left _)
  · intro u p i hp hout
    rw [hshared, hadmitted]
    rcases hold hp with rfl | hpu
    · exact hout.elim
    · have hne : i ≠ c := by
        rintro rfl
        have huw := hline.customers.unique u w _ _ i hpu hw.1 (customerID_of_outside hout) rfl
        subst huw
        cases hpu.symm.trans hw.1
        exact hout
      simp [h.outside u p i hpu hout, hne]
  · intro u i hp hu
    rw [hshared, hadmitted]
    cases (hleaving u).mp hu
    rcases hold hp with heq | hp
    · cases heq
    · cases hp.symm.trans hw.1
      exact ⟨List.mem_append_right _ (List.mem_singleton_self _),
        fun hi => hnew (h.left_admitted _ hi)⟩
  · intro u i hp hu
    rw [hshared, hadmitted]
    rcases hold hp with heq | hpu
    · cases heq
    · have huw : u ≠ w := fun huw => hu ((hleaving u).mpr huw)
      have hne : i ≠ c := by
        rintro rfl
        exact huw (hline.customers.unique u w _ _ i hpu hw.1 rfl rfl)
      simp [h.waiting u i hpu (hnone u), hne]

/-- A step in which no thread goes on. -/
theorem of_same {m' : Simulation} (h : TablesInv initial m) (hpc : m'.pc = m.pc)
    (hshared : m'.shared = m.shared) (hleaving : ∀ u, Leaving m' u ↔ Leaving m u) :
    TablesInv initial m' := by
  have hall := h
  obtain ⟨h₁, h₂, h₃, h₄, h₅, h₆, h₇, h₈, h₉, h₁₀⟩ := hall
  refine ⟨?_, ?_, ?_, ?_, ?_, ?_, ?_, ?_, ?_, ?_⟩ <;> simp only [hpc, hshared, hleaving] <;>
    assumption

/-- **One step** under the condition. -/
theorem step {m' : Simulation} (h : TablesInv initial m) (hline : LineInv m)
    (hguard : LineGuard m (t, x)) (hs : simulationStep m (t, x) = .ok m') :
    LineInv m' ∧ TablesInv initial m' := by
  rcases Machine.step_cases hs with ⟨r, hr, ht, rfl⟩ | ⟨r, l, hr, ht, rfl⟩ | ⟨r, c, l, hr, ht, rfl⟩
  · by_cases hchanges : r.Changes
    · have hnone := hline.none_leaving hr ht hchanges hguard
      unfold Pc.Changes at hchanges
      split at hchanges
      · obtain ⟨hline', hleaving⟩ := hline.after_join hr ht hguard
        exact ⟨hline', h.after_join hline hr hnone hleaving⟩
      · obtain ⟨hline', w, hw, hleaving⟩ := hline.after_seat hr ht hguard
        exact ⟨hline', h.after_seat hline hr hnone hw hleaving⟩
      · exact hchanges.elim
    · exact ⟨hline.after_quiet hr ht hchanges hguard, h.after_quiet hline hr ht hchanges⟩
  · obtain ⟨hline', hleaving⟩ := hline.after_woken ht hs
    exact ⟨hline', h.of_same rfl rfl hleaving⟩
  · obtain ⟨hline', hleaving⟩ := hline.after_broadcast ht hs
    exact ⟨hline', h.of_same (Machine.pc_broadcast m t c l) (Machine.shared_broadcast m t c l)
      hleaving⟩

/-- What the two invariants give. -/
theorem conserved (h : TablesInv initial m) (hline : LineInv m) : LineConserved initial m := by
  obtain ⟨n, hin, hlen, -⟩ := hline.line
  refine ⟨?_, ?_, h.tables, h.tables_nonneg, ?_, ?_, ?_⟩
  · intro hfree
    rw [hlen (hline.free hfree)]
    refine List.Nodup.map_on ?_ List.nodup_range
    intro b hb b' hb' heq
    exact hin.inj b b' (List.mem_range.mp hb) (List.mem_range.mp hb') heq
  · intro hfree i
    rw [hlen (hline.free hfree), List.mem_map]
    constructor
    · rintro ⟨b, hb, rfl⟩
      exact hin.mem b (List.mem_range.mp hb)
    · rintro ⟨u, hu⟩
      obtain ⟨b, hb, hi⟩ := hin.all u i hu
      exact ⟨b, List.mem_range.mpr hb, hi⟩
  · exact (h.left_nodup.subperm h.left_admitted).length_le
  · intro i
    exact List.nodup_iff_count_le_one.mp h.admitted_nodup i
  · intro u p i hp hin
    exact List.count_eq_one_of_mem h.admitted_nodup (h.inside u p i hp hin).1

end TablesInv

end

/-- **At the start** nobody waits. -/
theorem LineInv.init (routines : List Routine) (target : ℕ) (v : TestVariables) :
    LineInv (.init (.main routines) (initializeTest target v)) := by
  have hmain {u : ℕ} {r : Pc} (hu : (Machine.init (.main routines) (initializeTest target v) :
      Simulation).pc u = some r) : r = .main routines := Machine.pc_init hu
  have hwaits (u i : ℕ) :
      ¬ Waits (.init (.main routines) (initializeTest target v)) u i := by
    rintro ⟨hpc, -⟩
    cases hmain hpc
  have hleaving (u : ℕ) : ¬ Leaving (.init (.main routines) (initializeTest target v)) u := by
    rw [leaving_iff]
    rintro ⟨⟨i, hi⟩, -⟩
    cases hmain hi
  refine ⟨Machine.Ok.init _ _, ?_, ⟨?_, ?_⟩, ?_, ?_, ?_, ?_, ?_, ⟨0, ⟨?_, ?_, ?_⟩, ?_, ?_⟩, ?_⟩
  · rintro u l ⟨r, hr, hl, -⟩
    cases hmain hr
    exact hl.elim
  · intro u r i hr hi
    cases hmain hr
    cases hi
  · intro u u' r r' i hr _ hi
    cases hmain hr
    cases hi
  · intro u i l hc
    cases hc
  · intro u i c l hpc
    cases hmain hpc
  · intro u c l hc
    cases hc
  · intro u v' hu
    exact absurd hu (hleaving u)
  · intro _ u
    exact hleaving u
  · intro b hb
    exact absurd hb (Nat.not_lt_zero b)
  · intro b b' hb
    exact absurd hb (Nat.not_lt_zero b)
  · intro u i hu
    exact absurd hu (hwaits u i)
  · intro _
    rfl
  · intro u hu
    exact absurd hu (hleaving u)
  · intro u k c hpc
    cases hmain hpc

theorem TablesInv.init (routines : List Routine) (target : ℕ) (v : TestVariables)
    (hv : 0 ≤ v.countNumTablesAvailable) : TablesInv v.countNumTablesAvailable
      (.init (.main routines) (initializeTest target v)) := by
  have hmain {u : ℕ} {r : Pc} (hu : (Machine.init (.main routines) (initializeTest target v) :
      Simulation).pc u = some r) : r = .main routines := Machine.pc_init hu
  refine ⟨?_, hv, List.nodup_nil, List.nodup_nil, ?_, ?_, ?_, ?_, ?_, ?_⟩
  · show v.countNumTablesAvailable + ((0 : ℕ) - (0 : ℕ) : ℤ) = _
    omega
  · intro i hi
    cases hi
  · intro i hi
    cases hi
  · intro u p i hp hin
    cases hmain hp
    exact hin.elim
  · intro u p i hp hout
    cases hmain hp
    exact hout.elim
  · intro u i hp
    cases hmain hp
  · intro u i hp
    cases hmain hp

/-- **Line and tables are conserved** in every run that keeps to the condition. -/
theorem line_conserved (routines : List Routine) (target : ℕ) (v : TestVariables)
    (hv : 0 ≤ v.countNumTablesAvailable) (events : List (ℕ × ℕ)) (m : Simulation)
    (hguard : Guarded simulationStep LineGuard
      (.init (.main routines) (initializeTest target v)) events)
    (h : exec simulationStep (.init (.main routines) (initializeTest target v)) events = .ok m) :
    LineConserved v.countNumTablesAvailable m := by
  have hstep (m : Simulation) (tx : ℕ × ℕ) (m' : Simulation)
      (h : LineInv m ∧ TablesInv v.countNumTablesAvailable m) (hg : LineGuard m tx)
      (hs : simulationStep m tx = .ok m') :
      LineInv m' ∧ TablesInv v.countNumTablesAvailable m' :=
    h.2.step h.1 hg hs
  have hinit := And.intro (LineInv.init routines target v) (TablesInv.init routines target v hv)
  obtain ⟨hline, htables⟩ := exec_inv hstep hinit hguard h
  exact htables.conserved hline

/-- A manager and a customer who eats in; the customer waits to enter. -/
def oneWaits : List (ℕ × ℕ) := (List.replicate 3 0 ++ List.replicate 4 2).map fun t => (t, 0)

/-- The manager lets the customer in, hands it the lock, and the customer leaves the line. -/
theorem line_conserved_one : ∃ m : Simulation,
    exec simulationStep (.init (.main [.manager, .customer])
      (initializeTest 1 ⟨10, true, false, true, none⟩))
      (oneWaits ++ (List.replicate 44 1 ++ [2, 1, 2]).map fun t => (t, 0)) = .ok m ∧
      m.shared.countNumTablesAvailable = 9 ∧ LineConserved 10 m := by
  have hguard : Guarded simulationStep LineGuard (.init (.main [.manager, .customer])
      (initializeTest 1 ⟨10, true, false, true, none⟩))
      (oneWaits ++ (List.replicate 44 1 ++ [2, 1, 2]).map fun t => (t, 0)) := by
    decide +kernel
  have hrun : Ends simulationStep (.init (.main [.manager, .customer])
      (initializeTest 1 ⟨10, true, false, true, none⟩))
      (oneWaits ++ (List.replicate 44 1 ++ [2, 1, 2]).map fun t => (t, 0))
      fun m => m.shared.countNumTablesAvailable = 9 := by
    decide +kernel
  obtain ⟨m, h, htables⟩ := hrun
  exact ⟨m, h, htables, line_conserved _ _ _ (by decide) _ m hguard h⟩

/-- The signalled customer does not run before the manager comes round again: it is let in a second
    time, and another table is taken. -/
theorem line_not_conserved : ¬ ∀ (routines : List Routine) (target : ℕ) (v : TestVariables),
    routines.count .manager = 1 → routines.count .customer ≤ countMaxNumCustomers →
      0 ≤ v.countNumTablesAvailable → ∀ (events : List (ℕ × ℕ)) (m : Simulation),
        exec simulationStep (.init (.main routines) (initializeTest target v)) events = .ok m →
          LineConserved v.countNumTablesAvailable m := by
  intro hall
  have hrun : Ends simulationStep (.init (.main [.manager, .customer])
      (initializeTest 1 ⟨10, true, false, true, none⟩))
      (oneWaits ++ (List.replicate 75 1).map fun t => (t, 0))
      fun m => m.shared.history.admitted = [0, 0] := by
    decide +kernel
  obtain ⟨m, h, hadmitted⟩ := hrun
  have hone := (hall _ _ _ (by decide) (by decide) (by decide) _ m h).once 0
  rw [hadmitted] at hone
  exact absurd hone (by decide)

end Nachos.Restaurant
