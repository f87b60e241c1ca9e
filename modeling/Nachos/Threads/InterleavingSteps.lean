import Nachos.Threads.Interleaving

/-!
# What a step does to the other threads

A call gives a lock to a thread that waits for it, or wakes one that waits on a condition; all
others stay what they are and where they are.

* `status_perform_of_ne`, `status_perform_self`, `pc_computed`: what a call does to the threads.
* `total_compute`, `total_perform`: how the sum of the threads' weights changes.
* `exec_put`: a run does not depend on a thread that stands still.
* `Numbered.step`: threads that number themselves have different numbers.
-/

namespace Nachos.Threads

open Nachos.Lib

variable {ℓ κ π σ ι : Type}

namespace Machine

section

variable [DecidableEq ℓ] [DecidableEq κ] {program : π → ι → σ → Action ℓ κ π σ}
  {m m' : Machine ℓ κ π σ} {t : ℕ} {x : ι}

/-! ## Other threads -/

variable {u : ℕ}

omit [DecidableEq κ] in
theorem status_acquire_of_ne (hu : u ≠ t) (l : ℓ) : (m.acquire t l).status u = m.status u :=
  Function.update_of_ne hu _ _

omit [DecidableEq κ] in
/-- `Release` gives the lock to a thread that waits for it. -/
theorem status_release (h : m.Ok) (t : ℕ) (l : ℓ) (u : ℕ) :
    (m.release t l).status u = m.status u ∨
      m.status u = .acquiring l ∧ (m.release t l).status u = .ready ∧
        ((m.release t l).locks l).owner = some u := by
  unfold Machine.release
  simp only
  rcases Kernel.waitingThreads_release (m.locks l) t with
    ⟨hnext, -⟩ | ⟨v, rest, hnext, hhead, -⟩
  · rw [hnext]
    exact Or.inl rfl
  · rw [hnext]
    by_cases hu : u = v
    · subst hu
      refine Or.inr ⟨(h.acquiring l u).mp (by rw [hhead]; exact List.mem_cons_self ..), ?_, ?_⟩
      · exact Function.update_self ..
      · show (Function.update m.locks l _ l).owner = some u
        rw [Function.update_self]
        exact Lock.owner_release hnext
    · exact Or.inl (Function.update_of_ne hu _ _)

omit [DecidableEq κ] in
theorem locks_release (m : Machine ℓ κ π σ) (t : ℕ) (l : ℓ) :
    (m.release t l).locks = Function.update m.locks l ((m.locks l).release t) := by
  unfold Machine.release
  simp only
  split <;> rfl

/-- `Signal` wakes the thread that has waited longest. -/
theorem status_signal (h : m.Ok) (c : κ) (l : ℓ) (u : ℕ) :
    (m.signal c l).status u = m.status u ∨
      m.status u = .waiting c l ∧ (m.signal c l).status u = .woken l := by
  unfold Machine.signal
  simp only
  split
  next => exact Or.inl rfl
  next v rest hqueue =>
    by_cases hlock : (m.conditions c).waitingLock ≠ some l
    · rw [if_pos hlock]
      exact Or.inl rfl
    · rw [if_neg hlock]
      rw [not_not] at hlock
      by_cases hu : u = v
      · subst hu
        exact Or.inr ⟨h.status_of_waiting hqueue hlock, Function.update_self ..⟩
      · exact Or.inl (Function.update_of_ne hu _ _)

theorem locks_signal (m : Machine ℓ κ π σ) (c : κ) (l : ℓ) : (m.signal c l).locks = m.locks := by
  unfold Machine.signal
  simp only
  split
  next => rfl
  next =>
    by_cases hlock : (m.conditions c).waitingLock ≠ some l
    · rw [if_pos hlock]
    · rw [if_neg hlock]
      rfl

/-! ## What no call changes -/

omit [DecidableEq κ] in
@[simp] theorem pc_acquire (m : Machine ℓ κ π σ) (t : ℕ) (l : ℓ) : (m.acquire t l).pc = m.pc := rfl

omit [DecidableEq κ] in
@[simp] theorem shared_acquire (m : Machine ℓ κ π σ) (t : ℕ) (l : ℓ) :
    (m.acquire t l).shared = m.shared := rfl

omit [DecidableEq κ] in
@[simp] theorem pc_release (m : Machine ℓ κ π σ) (t : ℕ) (l : ℓ) : (m.release t l).pc = m.pc := by
  unfold Machine.release
  simp only
  split <;> rfl

omit [DecidableEq κ] in
@[simp] theorem shared_release (m : Machine ℓ κ π σ) (t : ℕ) (l : ℓ) :
    (m.release t l).shared = m.shared := by
  unfold Machine.release
  simp only
  split <;> rfl

@[simp] theorem pc_wait (m : Machine ℓ κ π σ) (t : ℕ) (c : κ) (l : ℓ) :
    (m.wait t c l).pc = m.pc := by
  unfold Machine.wait
  simp only
  split_ifs
  · rfl
  · exact pc_release _ t l

@[simp] theorem shared_wait (m : Machine ℓ κ π σ) (t : ℕ) (c : κ) (l : ℓ) :
    (m.wait t c l).shared = m.shared := by
  unfold Machine.wait
  simp only
  split_ifs
  · rfl
  · exact shared_release _ t l

@[simp] theorem pc_signal (m : Machine ℓ κ π σ) (c : κ) (l : ℓ) : (m.signal c l).pc = m.pc :=
  Ok.pc_signal m c l

@[simp] theorem shared_signal (m : Machine ℓ κ π σ) (c : κ) (l : ℓ) :
    (m.signal c l).shared = m.shared := by
  unfold Machine.signal
  simp only
  split
  next => rfl
  next =>
    by_cases hlock : (m.conditions c).waitingLock ≠ some l
    · rw [if_pos hlock]
    · rw [if_neg hlock]
      rfl

theorem numThreads_signal (m : Machine ℓ κ π σ) (c : κ) (l : ℓ) :
    (m.signal c l).numThreads = m.numThreads := by
  unfold Machine.signal
  simp only
  split
  next => rfl
  next =>
    by_cases hlock : (m.conditions c).waitingLock ≠ some l
    · rw [if_pos hlock]
    · rw [if_neg hlock]
      rfl

@[simp] theorem pc_broadcast (m : Machine ℓ κ π σ) (t : ℕ) (c : κ) (l : ℓ) :
    (m.broadcast t c l).pc = m.pc := by
  unfold Machine.broadcast
  split_ifs
  · rfl
  · exact pc_signal m c l

@[simp] theorem shared_broadcast (m : Machine ℓ κ π σ) (t : ℕ) (c : κ) (l : ℓ) :
    (m.broadcast t c l).shared = m.shared := by
  unfold Machine.broadcast
  split_ifs
  · rfl
  · exact shared_signal m c l

@[simp] theorem shared_perform (m : Machine ℓ κ π σ) (t : ℕ) (op : Op ℓ κ π) :
    (m.perform t op).shared = m.shared := by
  cases op <;> simp [perform, fork, setStatus]

/-- Only `Fork` gives a thread its routine. -/
theorem pc_perform (m : Machine ℓ κ π σ) (t : ℕ) (op : Op ℓ κ π) :
    (m.perform t op).pc = m.pc ∨
      ∃ q, op = .fork q ∧ (m.perform t op).pc = Function.update m.pc (m.numThreads + 1) (some q) := by
  cases op with
  | fork q => exact Or.inr ⟨q, rfl, rfl⟩
  | _ => exact Or.inl (by simp [perform, setStatus])

/-- **Where a thread is** after a step: where the thread that ran goes on, where it was, or at the
    start of its routine. -/
theorem pc_computed (h : m.Ok) {a : Action ℓ κ π σ} {u : ℕ} {q : π}
    (hq : ((m.compute t a.shared a.pc).perform t a.op).pc u = some q) :
    u = t ∧ q = a.pc ∨ u ≠ t ∧ m.pc u = some q ∨ m.pc u = none ∧ a.op = .fork q := by
  have hold (hq : Function.update m.pc t (some a.pc) u = some q) :
      u = t ∧ q = a.pc ∨ u ≠ t ∧ m.pc u = some q := by
    by_cases hut : u = t
    · subst hut
      rw [Function.update_self] at hq
      exact Or.inl ⟨rfl, (Option.some_injective _ hq).symm⟩
    · rw [Function.update_of_ne hut] at hq
      exact Or.inr ⟨hut, hq⟩
  rcases pc_perform (m.compute t a.shared a.pc) t a.op with hsame | ⟨r, hfork, hnew⟩
  · rw [hsame] at hq
    exact (hold hq).imp_right Or.inl
  · rw [hnew, show (m.compute t a.shared a.pc).numThreads = m.numThreads from rfl] at hq
    by_cases hun : u = m.numThreads + 1
    · subst hun
      rw [Function.update_self] at hq
      cases hq
      exact Or.inr (Or.inr ⟨h.unborn _ (Nat.lt_succ_self _), hfork⟩)
    · rw [Function.update_of_ne hun] at hq
      exact (hold hq).imp_right Or.inl

/-- The thread that ran goes on at its next point. -/
theorem pc_computed_self (h : m.Ok) (ht : m.pc t ≠ none) (a : Action ℓ κ π σ) :
    ((m.compute t a.shared a.pc).perform t a.op).pc t = some a.pc := by
  have hself : (m.compute t a.shared a.pc).pc t = some a.pc := Function.update_self ..
  rcases pc_perform (m.compute t a.shared a.pc) t a.op with hsame | ⟨q, -, hnew⟩
  · rw [hsame, hself]
  · have hne : t ≠ m.numThreads + 1 := by
      rintro rfl
      exact ht (h.unborn _ (Nat.lt_succ_self _))
    rw [hnew]
    exact (Function.update_of_ne hne _ _).trans hself

/-- The other ones are where they were. -/
theorem pc_computed_of_ne (h : m.Ok) {u : ℕ} {q : π} (hu : u ≠ t) (hq : m.pc u = some q)
    (a : Action ℓ κ π σ) : ((m.compute t a.shared a.pc).perform t a.op).pc u = some q := by
  have hother : (m.compute t a.shared a.pc).pc u = some q :=
    (Function.update_of_ne hu _ _).trans hq
  rcases pc_perform (m.compute t a.shared a.pc) t a.op with hsame | ⟨r, -, hnew⟩
  · rw [hsame, hother]
  · have hne : u ≠ m.numThreads + 1 := by
      rintro rfl
      exact absurd (h.unborn _ (Nat.lt_succ_self _)) (by simp [hq])
    rw [hnew]
    exact (Function.update_of_ne hne _ _).trans hother

/-- Only `Fork` makes a thread. -/
theorem numThreads_perform (m : Machine ℓ κ π σ) (t : ℕ) (op : Op ℓ κ π) :
    (m.perform t op).numThreads = m.numThreads ∨
      ∃ q, op = .fork q ∧ (m.perform t op).numThreads = m.numThreads + 1 := by
  cases op with
  | fork q => exact Or.inr ⟨q, rfl, rfl⟩
  | acquire l => exact Or.inl rfl
  | release l =>
    left
    show (m.release t l).numThreads = _
    unfold Machine.release
    simp only
    split <;> rfl
  | wait c l =>
    left
    show (m.wait t c l).numThreads = _
    unfold Machine.wait Machine.release
    simp only
    split_ifs
    · rfl
    · split <;> rfl
  | signal c l =>
    left
    show (m.signal c l).numThreads = _
    exact numThreads_signal m c l
  | broadcast c l =>
    left
    show (m.broadcast t c l).numThreads = _
    unfold Machine.broadcast
    split_ifs
    · rfl
    · exact numThreads_signal m c l
  | yield => exact Or.inl rfl
  | finish => exact Or.inl rfl

/-- Only `Finish` ends a thread. -/
theorem status_perform_finished {u : ℕ} (h : m.Ok) {op : Op ℓ κ π}
    (hu : (m.perform t op).status u = .finished) :
    m.status u = .finished ∨ u = t ∧ op = .finish := by
  have hset {m : Machine ℓ κ π σ} {st : Status ℓ κ} (hst : st ≠ .finished)
      (hu : (m.setStatus t st).status u = .finished) : m.status u = .finished := by
    change Function.update m.status t st u = .finished at hu
    by_cases hut : u = t
    · rw [hut, Function.update_self] at hu
      exact absurd hu hst
    · rwa [Function.update_of_ne hut] at hu
  have hsignal (c : κ) (l : ℓ) (hu : (m.signal c l).status u = .finished) :
      m.status u = .finished := by
    rcases status_signal h c l u with hstatus | ⟨-, hwoken⟩
    · rwa [hstatus] at hu
    · rw [hwoken] at hu
      cases hu
  have hrelease (l : ℓ) (hu : (m.release t l).status u = .finished) : m.status u = .finished := by
    rcases status_release h t l u with hstatus | ⟨-, hready, -⟩
    · rwa [hstatus] at hu
    · rw [hready] at hu
      cases hu
  cases op with
  | acquire l =>
    refine Or.inl (hset ?_ hu)
    split_ifs <;> exact nofun
  | release l => exact Or.inl (hrelease l hu)
  | wait c l =>
    left
    change (m.wait t c l).status u = .finished at hu
    unfold Machine.wait at hu
    simp only at hu
    split_ifs at hu with hlock
    · exact hu
    · have hreleased := hset (by exact nofun) hu
      apply hrelease l
      have heq (conditions : κ → WaitQueue ℓ) :
          ({ m with conditions := conditions }.release t l).status = (m.release t l).status := by
        unfold Machine.release
        simp only
        split <;> rfl
      rwa [heq] at hreleased
  | signal c l => exact Or.inl (hsignal c l hu)
  | broadcast c l =>
    left
    change (m.broadcast t c l).status u = .finished at hu
    unfold Machine.broadcast at hu
    split_ifs at hu
    · exact hset (by exact nofun) hu
    · exact hsignal c l (hset (by exact nofun) hu)
  | fork q => exact Or.inl hu
  | yield => exact Or.inl hu
  | finish =>
    by_cases hut : u = t
    · exact Or.inr ⟨hut, rfl⟩
    · exact Or.inl ((Function.update_of_ne hut _ _).symm.trans hu)

/-- A lock that is free after a call which does not release it was free before. -/
theorem state_perform {op : Op ℓ κ π} {l : ℓ} (hrelease : op ≠ .release l)
    (hwait : ∀ c, op ≠ .wait c l) (h : ((m.perform t op).locks l).state = .free) :
    (m.locks l).state = .free := by
  cases op with
  | acquire k =>
    change (Function.update m.locks k ((m.locks k).acquire t) l).state = .free at h
    by_cases hl : l = k
    · subst hl
      rw [Function.update_self, Lock.acquire] at h
      split_ifs at h with hheld hfree
      · exact h
      · exact h
    · rwa [Function.update_of_ne hl] at h
  | release k =>
    have hl : l ≠ k := by
      rintro rfl
      exact hrelease rfl
    change ((m.release t k).locks l).state = .free at h
    rwa [locks_release, Function.update_of_ne hl] at h
  | wait c k =>
    have hl : l ≠ k := by
      rintro rfl
      exact hwait c rfl
    change ((m.wait t c k).locks l).state = .free at h
    unfold Machine.wait at h
    simp only at h
    split_ifs at h
    · exact h
    · change ((({ m with conditions := _ } : Machine ℓ κ π σ).release t k).locks l).state = _ at h
      rwa [locks_release, Function.update_of_ne hl] at h
  | signal c k =>
    change ((m.signal c k).locks l).state = .free at h
    rwa [locks_signal] at h
  | broadcast c k =>
    change ((m.broadcast t c k).locks l).state = .free at h
    unfold Machine.broadcast at h
    split_ifs at h
    · exact h
    · change ((m.signal c k).locks l).state = .free at h
      rwa [locks_signal] at h
  | fork q => exact h
  | yield => exact h
  | finish => exact h

omit [DecidableEq κ] in
/-- `Release` leaves the lock free only if nobody waits for it. -/
theorem waitingThreads_of_release (h : m.Ok) {l : ℓ}
    (hfree : ((m.release t l).locks l).state = .free) : (m.locks l).waitingThreads = [] := by
  rw [locks_release, Function.update_self, Lock.release] at hfree
  split_ifs at hfree with hheld
  · cases hqueue : (m.locks l).waitingThreads with
    | nil => rfl
    | cons u rest =>
      rw [hqueue] at hfree
      have hempty := (h.lock l).waitingThreads hfree
      rw [hqueue] at hempty
      cases hempty
  · exact (h.lock l).waitingThreads hfree

/-! ## Weights -/

/-- The weights of the threads at their points of the program. -/
def total (m : Machine ℓ κ π σ) (w : π → ℕ) : ℕ :=
  ∑ t ∈ Finset.range (m.numThreads + 1), (m.pc t).elim 0 w

omit [DecidableEq ℓ] [DecidableEq κ] in
/-- A thread goes on at another point. -/
theorem total_compute (h : m.Ok) {p : π} (hp : m.pc t = some p) (w : π → ℕ) (shared : σ) (q : π) :
    (m.compute t shared q).total w + w p = m.total w + w q := by
  have hmem : t ∈ Finset.range (m.numThreads + 1) := by
    rw [Finset.mem_range]
    by_contra hlt
    rw [h.unborn t (by omega)] at hp
    cases hp
  have hbefore := Finset.add_sum_erase _ (fun u => (m.pc u).elim 0 w) hmem
  have hafter :=
    Finset.add_sum_erase _ (fun u => (Function.update m.pc t (some q) u).elim 0 w) hmem
  have hother : ∑ u ∈ (Finset.range (m.numThreads + 1)).erase t,
      (Function.update m.pc t (some q) u).elim 0 w =
        ∑ u ∈ (Finset.range (m.numThreads + 1)).erase t, (m.pc u).elim 0 w :=
    Finset.sum_congr rfl fun u hu => by rw [Function.update_of_ne (Finset.ne_of_mem_erase hu)]
  simp only [Function.update_self, hp, Option.elim_some] at hbefore hafter
  show ∑ u ∈ Finset.range (m.numThreads + 1), (Function.update m.pc t (some q) u).elim 0 w + w p =
    ∑ u ∈ Finset.range (m.numThreads + 1), (m.pc u).elim 0 w + w q
  omega

/-- A call makes at most one thread. -/
theorem total_perform (m : Machine ℓ κ π σ) (t : ℕ) (op : Op ℓ κ π) (w : π → ℕ) :
    (m.perform t op).total w = m.total w + op.weight w := by
  by_cases hfork : ∃ q, op = .fork q
  · obtain ⟨q, rfl⟩ := hfork
    show ∑ u ∈ Finset.range (m.numThreads + 1 + 1),
      (Function.update m.pc (m.numThreads + 1) (some q) u).elim 0 w = m.total w + w q
    rw [Finset.sum_range_succ, Function.update_self]
    congr 1
    refine Finset.sum_congr rfl fun u hu => ?_
    rw [Function.update_of_ne (Finset.mem_range.mp hu).ne]
  · have hpc : (m.perform t op).pc = m.pc :=
      (pc_perform m t op).resolve_right fun ⟨q, hq, _⟩ => hfork ⟨q, hq⟩
    have hnum : (m.perform t op).numThreads = m.numThreads :=
      (numThreads_perform m t op).resolve_right fun ⟨q, hq, _⟩ => hfork ⟨q, hq⟩
    have hweight : op.weight w = 0 := by
      cases op with
      | fork q => exact absurd ⟨q, rfl⟩ hfork
      | _ => rfl
    rw [hweight, Nat.add_zero, total, total, hpc, hnum]

theorem total_broadcast (m : Machine ℓ κ π σ) (t : ℕ) (c : κ) (l : ℓ) (w : π → ℕ) :
    (m.broadcast t c l).total w = m.total w :=
  total_perform m t (.broadcast c l) w

/-! ## Threads that stand still -/

/-- The thread `u` is at another point. -/
def put (m : Machine ℓ κ π σ) (u : ℕ) (q : π) : Machine ℓ κ π σ :=
  { m with pc := Function.update m.pc u (some q) }

/-- A call does not depend on where another thread is. -/
theorem perform_put (hu : u ≤ m.numThreads) (q : π) (op : Op ℓ κ π) :
    (m.put u q).perform t op = (m.perform t op).put u q := by
  have hsignal (c : κ) (l : ℓ) : (m.put u q).signal c l = (m.signal c l).put u q := by
    have hcond : (m.put u q).conditions = m.conditions := rfl
    cases hqueue : (m.conditions c).waitingThreads with
    | nil => simp only [Machine.signal, hcond, hqueue]
    | cons v rest =>
      simp only [Machine.signal, hcond, hqueue]
      by_cases hlock : (m.conditions c).waitingLock ≠ some l
      · rw [if_pos hlock, if_pos hlock]
      · rw [if_neg hlock, if_neg hlock]
        rfl
  have hrelease (m : Machine ℓ κ π σ) (l : ℓ) :
      (m.put u q).release t l = (m.release t l).put u q := by
    have hlocks : (m.put u q).locks = m.locks := rfl
    cases hnext : (m.locks l).next t with
    | none => simp only [Machine.release, hlocks, hnext]; rfl
    | some v => simp only [Machine.release, hlocks, hnext]; rfl
  cases op with
  | acquire l => rfl
  | release l => exact hrelease m l
  | wait c l =>
    show (m.put u q).wait t c l = (m.wait t c l).put u q
    unfold Machine.wait
    show (if l ≠ (m.conditions c).waitingLock.getD l then _ else _) = _
    by_cases hlock : l ≠ (m.conditions c).waitingLock.getD l
    · rw [if_pos hlock, if_pos hlock]
    · rw [if_neg hlock, if_neg hlock]
      have hqueued (conditions : κ → WaitQueue ℓ) :
          ({ m with conditions := conditions }.put u q).release t l =
            ({ m with conditions := conditions }.release t l).put u q := hrelease _ l
      exact congrArg (fun m => setStatus m t (.waiting c l)) (hqueued _)
  | signal c l => exact hsignal c l
  | broadcast c l =>
    show (m.put u q).broadcast t c l = (m.broadcast t c l).put u q
    unfold Machine.broadcast
    show (if (m.conditions c).waitingThreads = [] then _ else _) = _
    split_ifs
    · rfl
    · rw [hsignal]
      rfl
  | fork r =>
    have hcomm := Function.update_comm (show u ≠ m.numThreads + 1 by omega) (some q) (some r) m.pc
    exact congrArg (fun pc => { m with numThreads := m.numThreads + 1, pc := pc }) hcomm
  | yield => rfl
  | finish => rfl

/-- **A run of other threads** does not depend on where a thread stands still. -/
theorem exec_put {q : π} {events : List (ℕ × ι)} (hu : u ≤ m.numThreads)
    (hother : ∀ e ∈ events, e.1 ≠ u) (h : exec (step program) m events = .ok m') :
    exec (step program) (m.put u q) events = .ok (m'.put u q) := by
  induction events generalizing m with
  | nil =>
    cases h
    rfl
  | cons e events ih =>
    obtain ⟨m₁, hs, hrun⟩ := exec_cons_eq_ok h
    have hne : e.1 ≠ u := hother e (List.mem_cons_self ..)
    have hpc : (m.put u q).pc e.1 = m.pc e.1 := Function.update_of_ne hne _ _
    have hnum : m.numThreads ≤ m₁.numThreads := by
      rcases step_cases hs with ⟨p, -, -, rfl⟩ | ⟨p, l, -, -, rfl⟩ | ⟨p, c, l, -, -, rfl⟩
      · rcases numThreads_perform (m.compute e.1 _ _) e.1 _ with hn | ⟨r, -, hn⟩
        · exact hn.ge
        · exact hn ▸ Nat.le_succ _
      · exact le_rfl
      · rcases numThreads_perform m e.1 (.broadcast c l) with hn | ⟨r, -, hn⟩
        · exact hn.ge
        · exact hn ▸ Nat.le_succ _
    have hstep : step program (m.put u q) e = .ok (m₁.put u q) := by
      rcases step_cases hs with ⟨p, hp, ht, rfl⟩ | ⟨p, l, hp, ht, rfl⟩ | ⟨p, c, l, hp, ht, rfl⟩
      · have hcompute (shared : σ) (r : π) :
            (m.put u q).compute e.1 shared r = (m.compute e.1 shared r).put u q := by
          have hcomm := Function.update_comm hne.symm (some q) (some r) m.pc
          exact congrArg (fun pc => { m with shared := shared, pc := pc }) hcomm
        simp only [step, hpc, hp, show (m.put u q).status e.1 = _ from ht, hcompute]
        exact congrArg Except.ok (perform_put (m := m.compute e.1 _ _) hu q _)
      · simp only [step, hpc, hp, show (m.put u q).status e.1 = _ from ht]
        rfl
      · simp only [step, hpc, hp, show (m.put u q).status e.1 = _ from ht]
        exact congrArg Except.ok (perform_put hu q (.broadcast c l))
    rw [exec_cons_ok hstep]
    exact ih (hu.trans hnum) (fun e he => hother e (List.mem_cons_of_mem _ he)) hrun

/-! ## Who is woken -/

/-- **Other threads**: a call gives a lock to one that waits for it, or wakes one that waits on a
    condition. -/
theorem status_perform_of_ne {u : ℕ} (h : m.Ok) (hu : u ≠ t) (op : Op ℓ κ π) :
    (m.perform t op).status u = m.status u ∨
      (∃ l, (op = .release l ∨ ∃ c, op = .wait c l) ∧ m.status u = .acquiring l ∧
        (m.perform t op).status u = .ready) ∨
      ∃ c l, (op = .signal c l ∨ op = .broadcast c l) ∧ m.status u = .waiting c l ∧
        (m.perform t op).status u = .woken l := by
  cases op with
  | acquire l => exact Or.inl (status_acquire_of_ne hu l)
  | release l =>
    exact (status_release h t l u).imp_right fun ⟨hold, hnew, _⟩ =>
      Or.inl ⟨l, Or.inl rfl, hold, hnew⟩
  | wait c l =>
    have heq (conditions : κ → WaitQueue ℓ) :
        ({ m with conditions := conditions }.release t l).status = (m.release t l).status := by
      unfold Machine.release
      simp only
      split <;> rfl
    show (m.wait t c l).status u = _ ∨ (∃ k, _ ∧ _ ∧ (m.wait t c l).status u = _) ∨
      ∃ c' k, _ ∧ _ ∧ (m.wait t c l).status u = _
    unfold Machine.wait
    simp only
    split_ifs with hlock
    · exact Or.inl rfl
    · have hother (st : Status ℓ κ) {m : Machine ℓ κ π σ} : (m.setStatus t st).status u =
          m.status u := Function.update_of_ne hu _ _
      rw [hother, heq]
      exact (status_release h t l u).imp_right fun ⟨hold, hnew, _⟩ =>
        Or.inl ⟨l, Or.inr ⟨c, rfl⟩, hold, hnew⟩
  | signal c l =>
    exact (status_signal h c l u).imp_right fun ⟨hold, hnew⟩ =>
      Or.inr ⟨c, l, Or.inl rfl, hold, hnew⟩
  | broadcast c l =>
    show (m.broadcast t c l).status u = _ ∨ (∃ k, _ ∧ _ ∧ (m.broadcast t c l).status u = _) ∨
      ∃ c' k, _ ∧ _ ∧ (m.broadcast t c l).status u = _
    unfold Machine.broadcast
    have hother (st : Status ℓ κ) {m : Machine ℓ κ π σ} : (m.setStatus t st).status u =
        m.status u := Function.update_of_ne hu _ _
    split_ifs
    · exact Or.inl (hother _)
    · rw [hother]
      exact (status_signal h c l u).imp_right fun ⟨hold, hnew⟩ =>
        Or.inr ⟨c, l, Or.inr rfl, hold, hnew⟩
  | fork q => exact Or.inl rfl
  | yield => exact Or.inl rfl
  | finish => exact Or.inl (Function.update_of_ne hu _ _)

/-- `Signal` wakes the only thread that waits. -/
theorem status_signal_only {c : κ} {l : ℓ} {u : ℕ} (h : m.Ok) (hu : m.status u = .waiting c l)
    (honly : ∀ v k, m.status v = .waiting c k → v = u) :
    (m.signal c l).status u = .woken l := by
  have hlock := h.waitingLock c u l hu
  have hmem : u ∈ (m.conditions c).waitingThreads := (h.waiting c u).mpr ⟨l, hu⟩
  unfold Machine.signal
  simp only
  split
  next hempty =>
    rw [hempty] at hmem
    cases hmem
  next v rest hqueue =>
    have hv : v = u := by
      obtain ⟨k, hk⟩ := (h.waiting c v).mp (by rw [hqueue]; exact List.mem_cons_self ..)
      exact honly v k hk
    rw [if_neg (not_not.mpr hlock), hv]
    exact Function.update_self ..

/-- `Wait` sleeps if all that wait have the same lock. -/
theorem status_wait {c : κ} {l : ℓ} (h : m.Ok) (hall : ∀ v k, m.status v = .waiting c k → k = l) :
    (m.wait t c l).status t = .waiting c l := by
  unfold Machine.wait
  simp only
  have hlock : l = (m.conditions c).waitingLock.getD l := by
    cases hqueue : (m.conditions c).waitingThreads with
    | nil => rw [h.waitingLock_none c hqueue, Option.getD_none]
    | cons v rest =>
      obtain ⟨k, hk⟩ := (h.waiting c v).mp (by rw [hqueue]; exact List.mem_cons_self ..)
      rw [h.waitingLock c v k hk, Option.getD_some, hall v k hk]
  rw [if_neg (not_not.mpr hlock)]
  exact Function.update_self ..

/-- **The thread itself** goes on, or sleeps in `Acquire` or `Wait`. -/
theorem status_perform_self (h : m.Ok) (ht : m.status t = .ready) (op : Op ℓ κ π) :
    match op with
    | .acquire l => (m.perform t op).status t = .ready ∨ (m.perform t op).status t = .acquiring l
    | .wait c l => (m.perform t op).status t = .ready ∨ (m.perform t op).status t = .waiting c l
    | .broadcast c l =>
      (m.perform t op).status t = .ready ∨ (m.perform t op).status t = .broadcasting c l
    | .finish => (m.perform t op).status t = .finished
    | _ => (m.perform t op).status t = .ready := by
  have hawake : (m.status t).Awake := by
    rw [ht]
    trivial
  cases op with
  | acquire l =>
    show (m.acquire t l).status t = _ ∨ (m.acquire t l).status t = _
    unfold Machine.acquire setStatus
    simp only [Function.update_self]
    split_ifs
    · exact Or.inl rfl
    · exact Or.inr rfl
  | release l =>
    show (m.release t l).status t = _
    rcases status_release h t l t with hold | ⟨-, hready, -⟩
    · rw [hold, ht]
    · exact hready
  | wait c l =>
    show (m.wait t c l).status t = _ ∨ (m.wait t c l).status t = _
    unfold Machine.wait
    simp only
    split_ifs
    · exact Or.inl ht
    · exact Or.inr (Function.update_self ..)
  | signal c l => exact (h.status_signal_of_awake hawake c l).trans ht
  | broadcast c l =>
    show (m.broadcast t c l).status t = _ ∨ (m.broadcast t c l).status t = _
    unfold Machine.broadcast
    split_ifs
    · exact Or.inl (Function.update_self ..)
    · exact Or.inr (Function.update_self ..)
  | fork q => exact ht
  | yield => exact ht
  | finish => exact Function.update_self ..

/-! ## Numbers that threads take -/

/-- **Threads have different numbers**, which they have taken from a counter. -/
structure Numbered (number : π → Option ℕ) (count : σ → ℕ) (m : Machine ℓ κ π σ) : Prop where
  lt : ∀ t p i, m.pc t = some p → number p = some i → i < count m.shared
  unique : ∀ t u p q i, m.pc t = some p → m.pc u = some q → number p = some i →
    number q = some i → t = u

/-- A thread keeps its number, or takes the next one. -/
def Takes (number : π → Option ℕ) (count : σ → ℕ) (s : σ) (p : π) (a : Action ℓ κ π σ) : Prop :=
  (number a.pc = number p ∧ count a.shared = count s ∨
    number a.pc = some (count s) ∧ count a.shared = count s + 1) ∧
  ∀ q, a.op = .fork q → number q = none

theorem Numbered.step {number : π → Option ℕ} {count : σ → ℕ} (h : m.Numbered number count)
    (hok : m.Ok) (hs : Machine.step program m (t, x) = .ok m')
    (htakes : ∀ p, m.pc t = some p → Takes number count m.shared p (program p x m.shared)) :
    m'.Numbered number count := by
  rcases step_cases hs with ⟨p, hp, ht, rfl⟩ | ⟨p, l, hp, ht, rfl⟩ | ⟨p, c, l, hp, ht, rfl⟩
  · obtain ⟨hself, hfork⟩ := htakes p hp
    generalize program p x m.shared = a at hself hfork
    have hshared : ((m.compute t a.shared a.pc).perform t a.op).shared = a.shared :=
      shared_perform _ t a.op
    -- where a number comes from
    have hfrom {u : ℕ} {q : π} {i : ℕ}
        (hq : ((m.compute t a.shared a.pc).perform t a.op).pc u = some q)
        (hi : number q = some i) :
        (∃ q', m.pc u = some q' ∧ number q' = some i) ∨ u = t ∧ i = count m.shared ∧
          count a.shared = count m.shared + 1 := by
      rcases pc_computed hok hq with ⟨rfl, rfl⟩ | ⟨-, hold⟩ | ⟨-, hnew⟩
      · rcases hself with ⟨hsame, -⟩ | ⟨hnext, hcount⟩
        · exact Or.inl ⟨p, hp, hsame ▸ hi⟩
        · rw [hnext] at hi
          exact Or.inr ⟨rfl, (Option.some_injective _ hi).symm, hcount⟩
      · exact Or.inl ⟨q, hold, hi⟩
      · rw [hfork q hnew] at hi
        cases hi
    have hle : count m.shared ≤ count a.shared := by
      rcases hself with ⟨-, hcount⟩ | ⟨-, hcount⟩ <;> omega
    constructor
    · intro u q i hq hi
      rw [hshared]
      rcases hfrom hq hi with ⟨q', hq', hi'⟩ | ⟨-, rfl, hcount⟩
      · exact (h.lt u q' i hq' hi').trans_le hle
      · omega
    · intro u v q r i hq hr hi hj
      rcases hfrom hq hi with ⟨q', hq', hi'⟩ | ⟨rfl, rfl, -⟩ <;>
        rcases hfrom hr hj with ⟨r', hr', hj'⟩ | ⟨rfl, hlast, -⟩
      · exact h.unique u v q' r' i hq' hr' hi' hj'
      · exact absurd (h.lt u q' i hq' hi') (by omega)
      · exact absurd (h.lt v r' _ hr' hj') (lt_irrefl _)
      · rfl
  · exact ⟨h.lt, h.unique⟩
  · have hpc : (m.broadcast t c l).pc = m.pc := pc_broadcast m t c l
    have hshared : (m.broadcast t c l).shared = m.shared := shared_broadcast m t c l
    constructor
    · rw [hpc, hshared]
      exact h.lt
    · rw [hpc]
      exact h.unique

end

end Machine

end Nachos.Threads
