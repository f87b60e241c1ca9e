import Nachos.Threads.KernelLocks

/-!
# The kernel's conditions

`Wait` queues the thread, releases the lock, sleeps and asks for the lock again. The condition
remembers the lock of the first thread that waits, until a `Signal` empties the queue.

* `wakeups_kept`: a signal with the lock of the waiting threads wakes the one that has waited
  longest, and no thread misses a signal between its `Release` and its `Sleep`.
-/

namespace Nachos.Threads

open Nachos.Lib

variable {τ : Type}

/-! ## The property -/

section

variable [DecidableEq τ]

/-- **A condition loses no wakeup.** -/
structure Kernel.WakeupsKept (s : Kernel τ) (c : ℕ) : Prop where
  waitingLock : (s.conditions c).waitingLock = none ↔ (s.conditions c).waitingThreads = []
  /-- All waiting threads have waited with the same lock. -/
  waiting : ∀ t ∈ (s.conditions c).waitingThreads, ∃ l, s.resume t = some (.wait c l) ∧
    (s.conditions c).waitingLock = some l
  /-- Those that have waited longest have been woken, in order. -/
  waited : s.history.waited c = s.history.woken c ++ (s.conditions c).waitingThreads
  signal : ∀ l t rest, (s.conditions c).waitingLock = some l →
    (s.conditions c).waitingThreads = t :: rest →
      ((s.signal c (some l)).conditions c).waitingThreads = rest ∧
        (s.signal c (some l)).readyList = s.readyList ++ [t]
  signal_other : ∀ l, (s.conditions c).waitingLock ≠ some l → s.signal c (some l) = s
  /-- A `Wait` changes nothing, or the thread is in the queue when the next one runs. -/
  wait : ∀ t l s', s.currentThread = some t → kernelStep s (.call (.wait c (some l))) = .ok s' →
    s' = s ∨ (s'.conditions c).waitingThreads = (s.conditions c).waitingThreads ++ [t] ∧
      s'.currentThread ≠ some t
  /-- A thread returns from `Wait` with the lock. -/
  returned : ∀ t l s', s.currentThread = some t →
    s.resume t = some (.wait c l) ∨ s.resume t = some (.reacquire l) →
    kernelStep s .resume = .ok s' → s'.resume t = none → (s'.locks l).owner = some t

end

/-! ## The invariant -/

/-- **The invariant.** -/
structure ConditionsInv (s : Kernel τ) : Prop where
  waitingLock : ∀ c, (s.conditions c).waitingLock = none ↔ (s.conditions c).waitingThreads = []
  waiting : ∀ c, ∀ t ∈ (s.conditions c).waitingThreads, ∃ l, s.resume t = some (.wait c l) ∧
    (s.conditions c).waitingLock = some l
  waited : ∀ c, s.history.waited c = s.history.woken c ++ (s.conditions c).waitingThreads

namespace ConditionsInv

open Kernel

variable {s : Kernel τ} {t : τ} {c : ℕ}

theorem init (main : τ) (values : ℕ → ℕ) : ConditionsInv (Kernel.init main values) := by
  constructor
  · intro c
    exact ⟨fun _ => rfl, fun _ => rfl⟩
  · intro c t ht
    cases ht
  · intro c
    rfl

/-- Only the conditions, what the threads wait for and their history matter. -/
theorem of_eq {s' : Kernel τ} (h : ConditionsInv s) (hconditions : s'.conditions = s.conditions)
    (hresume : s'.resume = s.resume) (hwaited : s'.history.waited = s.history.waited)
    (hwoken : s'.history.woken = s.history.woken) : ConditionsInv s' := by
  constructor
  · rw [hconditions]
    exact h.waitingLock
  · rw [hconditions, hresume]
    exact h.waiting
  · rw [hconditions, hwaited, hwoken]
    exact h.waited

theorem run (h : ConditionsInv s) : ConditionsInv s.run := by
  apply h.of_eq <;> simp

theorem v {i : ℕ} (h : ConditionsInv s) : ConditionsInv (s.v i) := by
  unfold Kernel.v
  simp only
  split <;> exact h.of_eq rfl rfl rfl rfl

variable [DecidableEq τ]

/-- A thread that waits on no condition goes on elsewhere. -/
theorem setResume (h : ConditionsInv s) (ht : ∀ c, t ∉ (s.conditions c).waitingThreads)
    (r : Option Resume) :
    ConditionsInv { s with resume := Function.update s.resume t r } := by
  refine ⟨h.waitingLock, ?_, h.waited⟩
  intro c u hu
  have hne : u ≠ t := fun heq => ht c (heq ▸ hu)
  show ∃ l, Function.update s.resume t r u = _ ∧ _
  rw [Function.update_of_ne hne]
  exact h.waiting c u hu

theorem sleep (h : ConditionsInv s) (ht : ∀ c, t ∉ (s.conditions c).waitingThreads) (r : Resume) :
    ConditionsInv (s.sleep t r) :=
  (h.setResume ht (some r)).run

theorem done (h : ConditionsInv s) (ht : ∀ c, t ∉ (s.conditions c).waitingThreads) :
    ConditionsInv (s.done t) :=
  h.setResume ht none

theorem p {i : ℕ} (h : ConditionsInv s) (ht : ∀ c, t ∉ (s.conditions c).waitingThreads) :
    ConditionsInv (s.p t i) := by
  unfold Kernel.p
  simp only
  split_ifs
  · have hqueued : ConditionsInv { s with
        semaphores := Function.update s.semaphores i
          { s.semaphores i with queue := (s.semaphores i).queue ++ [t] } } :=
      h.of_eq rfl rfl rfl rfl
    exact hqueued.sleep ht _
  · exact ConditionsInv.done (h.of_eq rfl rfl rfl rfl) ht

theorem acquire {l : ℕ} {r : Resume} (h : ConditionsInv s)
    (ht : ∀ c, t ∉ (s.conditions c).waitingThreads) : ConditionsInv (s.acquire t l r) := by
  unfold Kernel.acquire
  simp only
  split_ifs
  · exact ConditionsInv.done (h.of_eq rfl rfl rfl rfl) ht
  · have hqueued : ConditionsInv { s with
        locks := Function.update s.locks l ((s.locks l).acquire t)
        history := { s.history with
          queued := Function.update s.history.queued l (s.history.queued l ++ [t]) } } :=
      h.of_eq rfl rfl rfl rfl
    exact hqueued.sleep ht _

theorem acquired {l : ℕ} (h : ConditionsInv s) (ht : ∀ c, t ∉ (s.conditions c).waitingThreads) :
    ConditionsInv (s.acquired t l) :=
  ConditionsInv.done (h.of_eq rfl rfl rfl rfl) ht

omit [DecidableEq τ] in
/-- **`Signal`.** -/
theorem signal {lock : Option ℕ} (h : ConditionsInv s) : ConditionsInv (s.signal c lock) := by
  unfold Kernel.signal
  simp only
  split
  next => exact h
  next u rest hqueue =>
    by_cases hlock : (s.conditions c).waitingLock ≠ lock
    · rw [if_pos hlock]
      exact h
    · rw [if_neg hlock]
      have hself (cond : Condition τ) : Function.update s.conditions c cond c = cond :=
        Function.update_self ..
      have hother (cond : Condition τ) {k : ℕ} (hk : k ≠ c) :
          Function.update s.conditions c cond k = s.conditions k := Function.update_of_ne hk _ _
      have hbusy : (s.conditions c).waitingLock ≠ none := by
        intro hnone
        have hempty := (h.waitingLock c).mp hnone
        rw [hqueue] at hempty
        cases hempty
      constructor
      · intro k
        show (Function.update s.conditions c _ k).waitingLock = none ↔
          (Function.update s.conditions c _ k).waitingThreads = []
        by_cases hk : k = c
        · subst hk
          rw [hself]
          by_cases hrest : rest = [] <;> simp [hrest, hbusy]
        · rw [hother _ hk]
          exact h.waitingLock k
      · intro k x hx
        change x ∈ (Function.update s.conditions c _ k).waitingThreads at hx
        show ∃ l, s.resume x = _ ∧ (Function.update s.conditions c _ k).waitingLock = _
        by_cases hk : k = c
        · subst hk
          rw [hself] at hx ⊢
          rw [if_neg (List.ne_nil_of_mem hx)]
          exact h.waiting k x (by rw [hqueue]; exact List.mem_cons_of_mem _ hx)
        · rw [hother _ hk] at hx ⊢
          exact h.waiting k x hx
      · intro k
        show s.history.waited k = Function.update s.history.woken c _ k ++
          (Function.update s.conditions c _ k).waitingThreads
        by_cases hk : k = c
        · subst hk
          rw [hself, Function.update_self, h.waited k, hqueue, List.append_assoc]
          rfl
        · rw [hother _ hk, Function.update_of_ne hk]
          exact h.waited k

omit [DecidableEq τ] in
theorem waitingThreads_signal {lock : Option ℕ} {k : ℕ}
    (ht : t ∉ (s.conditions k).waitingThreads) :
    t ∉ ((s.signal c lock).conditions k).waitingThreads := by
  unfold Kernel.signal
  simp only
  split
  next => exact ht
  next u rest hqueue =>
    by_cases hlock : (s.conditions c).waitingLock ≠ lock
    · rwa [if_pos hlock]
    · rw [if_neg hlock]
      show t ∉ (Function.update s.conditions c _ k).waitingThreads
      by_cases hk : k = c
      · subst hk
        rw [Function.update_self]
        rw [hqueue] at ht
        exact fun hmem => ht (List.mem_cons_of_mem _ hmem)
      · rwa [Function.update_of_ne hk]

theorem broadcast {lock : Option ℕ} (h : ConditionsInv s)
    (ht : ∀ c, t ∉ (s.conditions c).waitingThreads) : ConditionsInv (s.broadcast t c lock) := by
  unfold Kernel.broadcast
  simp only
  split_ifs
  · exact h.done ht
  · exact h.signal.setResume (fun k => waitingThreads_signal (ht k)) _

/-- **`Wait`.** -/
theorem wait {lock : Option ℕ} (h : ConditionsInv s)
    (ht : ∀ c, t ∉ (s.conditions c).waitingThreads) : ConditionsInv (s.wait t c lock) := by
  cases lock with
  | none => exact h
  | some l =>
    unfold Kernel.wait
    simp only
    split_ifs with hlock
    · exact h
    · -- the lock that is saved, or was saved before
      have hl : ∀ l', (s.conditions c).waitingLock = some l' → l' = l := by
        intro l' hl'
        rw [hl', Option.getD_some, not_not] at hlock
        exact hlock.symm
      have hself (cond : Condition τ) : Function.update s.conditions c cond c = cond :=
        Function.update_self ..
      have hother (cond : Condition τ) {k : ℕ} (hk : k ≠ c) :
          Function.update s.conditions c cond k = s.conditions k := Function.update_of_ne hk _ _
      refine ConditionsInv.run (s := { s.release t l with
        conditions := Function.update s.conditions c
          ⟨some l, (s.conditions c).waitingThreads ++ [t]⟩
        resume := Function.update s.resume t (some (.wait c l))
        history := { (s.release t l).history with
          waited := Function.update s.history.waited c (s.history.waited c ++ [t]) } }) ?_
      constructor
      · intro k
        show (Function.update s.conditions c _ k).waitingLock = none ↔
          (Function.update s.conditions c _ k).waitingThreads = []
        by_cases hk : k = c
        · subst hk
          simp
        · rw [hother _ hk]
          exact h.waitingLock k
      · intro k x hx
        change x ∈ (Function.update s.conditions c _ k).waitingThreads at hx
        show ∃ l', Function.update s.resume t _ x = _ ∧
          (Function.update s.conditions c _ k).waitingLock = _
        by_cases hxt : x = t
        · subst hxt
          rw [Function.update_self]
          by_cases hk : k = c
          · subst hk
            rw [hself]
            exact ⟨l, rfl, rfl⟩
          · rw [hother _ hk] at hx
            exact absurd hx (ht k)
        · rw [Function.update_of_ne hxt]
          by_cases hk : k = c
          · subst hk
            rw [hself, List.mem_append, List.mem_singleton] at hx
            rw [hself]
            obtain ⟨l', hresume, hl'⟩ := h.waiting k x (hx.resolve_right hxt)
            rw [hl l' hl'] at hresume
            exact ⟨l, hresume, rfl⟩
          · rw [hother _ hk] at hx ⊢
            exact h.waiting k x hx
      · intro k
        show Function.update s.history.waited c _ k = s.history.woken k ++
          (Function.update s.conditions c _ k).waitingThreads
        by_cases hk : k = c
        · subst hk
          rw [hself, Function.update_self, h.waited k, List.append_assoc]
        · rw [hother _ hk, Function.update_of_ne hk]
          exact h.waited k

omit [DecidableEq τ] in
/-- The current thread waits on no condition. -/
theorem not_waiting (hplaced : PlacedInv s) (ht : s.currentThread = some t) (c : ℕ) :
    t ∉ (s.conditions c).waitingThreads := by
  intro hmem
  have hrunning : t ∈ s.threadsAt .running := by simp [threadsAt, ht]
  cases hplaced.exact.unique hrunning (show t ∈ s.threadsAt (.condition c) from hmem)

/-- **One step.** -/
theorem step {s' : Kernel τ} {e : Event τ} (h : ConditionsInv s) (hplaced : PlacedInv s)
    (hs : kernelStep s e = .ok s') : ConditionsInv s' := by
  rcases kernelStep_cases hs with ⟨t, c, -, ht, hc, rfl⟩ | ⟨t, r, -, ht, hr, rfl⟩ | ⟨i, -, rfl⟩ |
    ⟨-, ht, rfl⟩
  · have hwaiting := not_waiting hplaced ht
    cases c with
    | p i => exact h.p hwaiting
    | v i => exact h.v
    | acquire l => exact h.acquire hwaiting
    | release l => exact h.of_eq rfl rfl rfl rfl
    | wait c l => exact h.wait hwaiting
    | signal c l => exact h.signal
    | broadcast c l => exact h.broadcast hwaiting
    | yield =>
      show ConditionsInv (s.yield t)
      unfold Kernel.yield
      split
      · exact h
      · exact h.of_eq rfl rfl rfl rfl
    | fork u => exact h.of_eq rfl rfl rfl rfl
    | finish => exact ConditionsInv.run (h.of_eq rfl rfl rfl rfl)
  · have hwaiting := not_waiting hplaced ht
    cases r with
    | p i => exact h.p hwaiting
    | acquire l => exact h.acquired hwaiting
    | wait c l => exact h.acquire hwaiting
    | reacquire l => exact h.acquired hwaiting
    | broadcast c l => exact h.broadcast hwaiting
  · exact h.v
  · exact h.run

end ConditionsInv

/-! ## The theorem -/

namespace Kernel

variable [DecidableEq τ] {s : Kernel τ} {t : τ} {c l : ℕ}

omit [DecidableEq τ] in
/-- Whom `Run` starts was ready, if the one that sleeps was not. -/
theorem run_currentThread_ne (ht : t ∉ s.readyList) : s.run.currentThread ≠ some t := by
  unfold run
  split
  next => exact nofun
  next u rest hready =>
    intro heq
    cases heq
    rw [hready] at ht
    exact ht (List.mem_cons_self ..)

omit [DecidableEq τ] in
/-- `Signal` with the lock of the waiting threads. -/
theorem signal_first {u : τ} {rest : List τ} (hlock : (s.conditions c).waitingLock = some l)
    (hqueue : (s.conditions c).waitingThreads = u :: rest) :
    ((s.signal c (some l)).conditions c).waitingThreads = rest ∧
      (s.signal c (some l)).readyList = s.readyList ++ [u] := by
  unfold Kernel.signal
  simp [hqueue, hlock, readyToRun]

omit [DecidableEq τ] in
/-- `Signal` with another lock. -/
theorem signal_invalid {lock : Option ℕ} (hlock : (s.conditions c).waitingLock ≠ lock) :
    s.signal c lock = s := by
  unfold Kernel.signal
  simp only
  split
  next => rfl
  next => rw [if_pos hlock]

/-- `Wait` returns at once, or sleeps in the queue. -/
theorem wait_queued (hplaced : PlacedInv s) (ht : s.currentThread = some t) :
    s.wait t c (some l) = s ∨
      ((s.wait t c (some l)).conditions c).waitingThreads =
          (s.conditions c).waitingThreads ++ [t] ∧
        (s.wait t c (some l)).currentThread ≠ some t := by
  unfold Kernel.wait
  simp only
  split_ifs
  · exact Or.inl rfl
  · refine Or.inr ⟨?_, ?_⟩
    · simp [sleep, release]
    · apply run_currentThread_ne
      show t ∉ s.readyList ++ ((s.locks l).next t).toList
      rw [List.mem_append, Option.mem_toList, not_or]
      constructor
      · intro hready
        have hrunning : t ∈ s.threadsAt .running := by simp [threadsAt, ht]
        cases hplaced.exact.unique hrunning (show t ∈ s.threadsAt .ready from hready)
      · -- the next owner has queued for the lock
        intro hnext
        have hqueued : t ∈ (s.locks l).waitingThreads := by
          rcases waitingThreads_release (s.locks l) t with ⟨hnone, -⟩ | ⟨u, rest, hsome, hhead, -⟩
          · rw [hnone] at hnext
            cases hnext
          · rw [hsome] at hnext
            cases hnext
            rw [hhead]
            exact List.mem_cons_self ..
        exact LocksInv.not_waiting hplaced ht l hqueued

/-- The `Acquire` at the end of `Wait` returns with the lock. -/
theorem wait_returned (hplaced : PlacedInv s) (hlocks : LocksInv s)
    (ht : s.currentThread = some t)
    (hr : s.resume t = some (.wait c l) ∨ s.resume t = some (.reacquire l)) {s' : Kernel τ}
    (hs : kernelStep s .resume = .ok s') (hreturned : s'.resume t = none) :
    (s'.locks l).owner = some t := by
  rcases hr with hr | hr
  · simp only [kernelStep, ht, hr, Except.ok.injEq] at hs
    subst hs
    simp only [goOn, Kernel.acquire] at hreturned ⊢
    split_ifs at hreturned ⊢ with hheld
    · show (Function.update s.locks l _ l).owner = some t
      rw [Function.update_self]
      exact hheld
    · -- the thread sleeps in the `Acquire`
      simp [sleep] at hreturned
  · simp only [kernelStep, ht, hr, Except.ok.injEq] at hs
    subst hs
    exact (hlocks.granted l t (Or.inr hr)).resolve_left (LocksInv.not_waiting hplaced ht l)

end Kernel

open Kernel in
theorem conditionsInv_of_exec [DecidableEq τ] {main : τ} {values : ℕ → ℕ} {events : List (Event τ)}
    {s : Kernel τ} (h : exec kernelStep (.init main values) events = .ok s) : ConditionsInv s := by
  have hstep (s : Kernel τ) (e : Event τ) (s' : Kernel τ) (h : PlacedInv s ∧ ConditionsInv s)
      (hs : kernelStep s e = .ok s') : PlacedInv s' ∧ ConditionsInv s' :=
    ⟨h.1.step hs, h.2.step h.1 hs⟩
  exact (exec_preserves hstep ⟨.init main values, .init main values⟩ h).2

open Kernel in
/-- **Conditions lose no wakeup**, in any run of any threads. -/
theorem wakeups_kept [DecidableEq τ] {main : τ} {values : ℕ → ℕ} {events : List (Event τ)}
    {s : Kernel τ} (h : exec kernelStep (.init main values) events = .ok s) (c : ℕ) :
    s.WakeupsKept c := by
  obtain ⟨hplaced, hlocks⟩ := locksInv_of_exec h
  have hinv := conditionsInv_of_exec h
  constructor
  · exact hinv.waitingLock c
  · exact hinv.waiting c
  · exact hinv.waited c
  · intro l t rest hlock hqueue
    exact signal_first hlock hqueue
  · intro l hlock
    exact signal_invalid hlock
  · intro t l s' ht hs
    have hs' : s' = s.wait t c (some l) := by
      simp only [kernelStep, ht] at hs
      split_ifs at hs
      exact (Except.ok.inj hs).symm
    rw [hs']
    exact wait_queued hplaced ht
  · intro t l s' ht hr hs hreturned
    exact wait_returned hplaced hlocks ht hr hs hreturned

/-- The threads 0 and 1 wait on a condition, the thread 2 signals it while it has the lock, and the
    thread 0 queues for the lock. -/
theorem wakeups_kept_signal :
    ∃ s : Kernel ℕ, exec kernelStep (.init 0 fun _ => 0)
      [.call (.fork 1), .call (.fork 2), .call (.acquire 0), .call (.wait 0 (some 0)),
        .call (.acquire 0), .call (.wait 0 (some 0)), .call (.acquire 0),
        .call (.signal 0 (some 0)), .call .yield, .resume] = .ok s ∧
      ((s.conditions 0).waitingThreads = [1] ∧ s.history.woken 0 = [0] ∧
        (s.locks 0).waitingThreads = [0]) ∧ s.WakeupsKept 0 := by
  have hrun : Ends kernelStep (Kernel.init 0 fun _ => 0)
      [.call (.fork 1), .call (.fork 2), .call (.acquire 0), .call (.wait 0 (some 0)),
        .call (.acquire 0), .call (.wait 0 (some 0)), .call (.acquire 0),
        .call (.signal 0 (some 0)), .call .yield, .resume] fun s =>
      (s.conditions 0).waitingThreads = [1] ∧ s.history.woken 0 = [0] ∧
        (s.locks 0).waitingThreads = [0] := by
    decide +kernel
  obtain ⟨s, hs, hend⟩ := hrun
  exact ⟨s, hs, hend, wakeups_kept hs 0⟩

end Nachos.Threads
