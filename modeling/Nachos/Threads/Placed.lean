import Nachos.Threads.Kernel

/-!
# No thread is lost or duplicated

A thread is moved by hand between the ready list and the queues of semaphores, locks and
conditions. Each call is a sequence of moves from the head of one queue to the end of another.

* `threads_placed`: each thread that was forked and has not finished is in exactly one place.
-/

namespace Nachos.Threads

open Nachos.Lib

variable {τ : Type}

/-! ## Places -/

/-- The places where a thread can be. -/
inductive Place
  | running
  | ready
  | semaphore (i : ℕ)
  | lock (l : ℕ)
  | condition (c : ℕ)
  deriving DecidableEq

namespace Kernel

/-- The threads at each place, in order. -/
def threadsAt (s : Kernel τ) : Placement Place τ
  | .running => s.currentThread.toList
  | .ready => s.readyList
  | .semaphore i => (s.semaphores i).queue
  | .lock l => (s.locks l).waitingThreads
  | .condition c => (s.conditions c).waitingThreads

/-- A thread that was forked and has not finished. -/
def Alive (s : Kernel τ) (t : τ) : Prop := t ∈ s.forked ∧ t ∉ s.finished

variable {s : Kernel τ} {t : τ}

/-- Two placements that agree at each kind of place. -/
theorem threadsAt_eq {f : Placement Place τ} (hrunning : s.currentThread.toList = f .running)
    (hready : s.readyList = f .ready)
    (hsemaphore : ∀ i, (s.semaphores i).queue = f (.semaphore i))
    (hlock : ∀ l, (s.locks l).waitingThreads = f (.lock l))
    (hcondition : ∀ c, (s.conditions c).waitingThreads = f (.condition c)) : s.threadsAt = f := by
  funext place
  cases place with
  | running => exact hrunning
  | ready => exact hready
  | semaphore i => exact hsemaphore i
  | lock l => exact hlock l
  | condition c => exact hcondition c

/-! ### Moves -/

/-- `Run` takes the first thread that is ready. -/
theorem threadsAt_run :
    s.run.threadsAt = move .ready .running (Function.update s.threadsAt .running []) := by
  cases hready : s.readyList with
  | nil =>
    rw [move_nil (show Function.update s.threadsAt .running [] .ready = [] from hready)]
    apply threadsAt_eq <;> intros <;> simp [run, hready, threadsAt]
  | cons next rest =>
    rw [move_cons (show Function.update s.threadsAt .running [] .ready = next :: rest from hready)]
    apply threadsAt_eq <;> intros <;> simp [run, hready, threadsAt]

/-- A thread that was woken goes to the end of the ready list. -/
theorem threadsAt_readyToRun {u : τ} {rest : List τ} {s' : Kernel τ} {q : Place} (hq : q ≠ .ready)
    (hhead : s.threadsAt q = u :: rest)
    (h : s'.threadsAt = Function.update s.threadsAt q rest) :
    (s'.readyToRun u).threadsAt = move q .ready s.threadsAt := by
  have hready : s'.readyList = s.readyList := by
    have := congrFun h .ready
    rwa [Function.update_of_ne hq.symm] at this
  rw [move_cons hhead, Function.update_of_ne hq.symm, ← h]
  apply threadsAt_eq <;> intros <;> simp [readyToRun, threadsAt, hready]

theorem threadsAt_semaphore (s : Kernel τ) (i : ℕ) (sem : Semaphore τ) :
    { s with semaphores := Function.update s.semaphores i sem }.threadsAt =
      Function.update s.threadsAt (.semaphore i) sem.queue := by
  refine threadsAt_eq rfl rfl (fun j => ?_) (fun _ => rfl) fun _ => rfl
  by_cases hj : j = i
  · simp [hj]
  · simp [hj, threadsAt]

theorem threadsAt_lock (s : Kernel τ) (l : ℕ) (lock : Lock τ) :
    { s with locks := Function.update s.locks l lock }.threadsAt =
      Function.update s.threadsAt (.lock l) lock.waitingThreads := by
  refine threadsAt_eq rfl rfl (fun _ => rfl) (fun j => ?_) fun _ => rfl
  by_cases hj : j = l
  · simp [hj]
  · simp [hj, threadsAt]

theorem threadsAt_condition (s : Kernel τ) (c : ℕ) (cond : Condition τ) :
    { s with conditions := Function.update s.conditions c cond }.threadsAt =
      Function.update s.threadsAt (.condition c) cond.waitingThreads := by
  refine threadsAt_eq rfl rfl (fun _ => rfl) (fun _ => rfl) fun j => ?_
  by_cases hj : j = c
  · simp [hj]
  · simp [hj, threadsAt]

/-- A step that moves threads and neither forks nor finishes one. -/
structure Moved (s s' : Kernel τ) : Prop where
  forked : s'.forked = s.forked
  finished : s'.finished = s.finished
  exact : ∀ members, Exact s.threadsAt members → Exact s'.threadsAt members

theorem Moved.of_move {s' : Kernel τ} {p q : Place} (hforked : s'.forked = s.forked)
    (hfinished : s'.finished = s.finished) (h : s'.threadsAt = move p q s.threadsAt) :
    s.Moved s' :=
  ⟨hforked, hfinished, fun members hexact => by rw [h]; exact hexact.move p q⟩

theorem Moved.of_same {s' : Kernel τ} (hforked : s'.forked = s.forked)
    (hfinished : s'.finished = s.finished) (h : s'.threadsAt = s.threadsAt) : s.Moved s' :=
  ⟨hforked, hfinished, fun members hexact => by rwa [h]⟩

theorem Moved.trans {s' s'' : Kernel τ} (h : s.Moved s') (h' : s'.Moved s'') : s.Moved s'' :=
  ⟨h'.forked.trans h.forked, h'.finished.trans h.finished,
    fun members hexact => h'.exact members (h.exact members hexact)⟩

/-! ### Calls -/

theorem moved_v {i : ℕ} : s.Moved (s.v i) := by
  unfold Kernel.v
  simp only
  split
  next hqueue =>
    exact Moved.of_same rfl rfl
      ((threadsAt_semaphore s i _).trans (Function.update_eq_self _ _))
  next u rest hqueue =>
    exact Moved.of_move rfl rfl (threadsAt_readyToRun (q := .semaphore i) nofun hqueue
      (threadsAt_semaphore s i _))

theorem moved_yield (ht : s.currentThread = some t) : s.Moved (s.yield t) := by
  unfold Kernel.yield
  split
  next => exact Moved.of_same rfl rfl rfl
  next next rest hready =>
    refine ⟨rfl, rfl, fun members hexact => ?_⟩
    have hmoved := (hexact.move .ready .running).move .running .ready
    convert hmoved using 1
    have hrunning : Function.update (Function.update s.threadsAt .ready rest) .running
        (Function.update s.threadsAt .ready rest .running ++ [next]) .running = t :: [next] := by
      simp [threadsAt, ht]
    rw [move_cons (show s.threadsAt .ready = next :: rest from hready), move_cons hrunning]
    apply threadsAt_eq <;> intros <;> simp [threadsAt]

section

variable [DecidableEq τ]

/-- The current thread goes to the end of a queue and sleeps. -/
theorem threadsAt_sleep {s' : Kernel τ} {q : Place} {r : Resume} (ht : s.currentThread = some t)
    (hq : q ≠ .running)
    (h : s'.threadsAt = Function.update s.threadsAt q (s.threadsAt q ++ [t])) :
    (s'.sleep t r).threadsAt = move .ready .running (move .running q s.threadsAt) := by
  have hrunning : s.threadsAt .running = [t] := by simp [threadsAt, ht]
  rw [sleep, threadsAt_run, move_cons hrunning]
  congr 1
  show Function.update s'.threadsAt .running [] = _
  rw [h, Function.update_comm hq.symm, Function.update_of_ne hq]

/-- **No thread is lost or duplicated**: each one that lives is in exactly one place, once. -/
def Placed (s : Kernel τ) : Prop :=
  ∀ t, s.Alive t → ∃ p, (s.threadsAt p).count t = 1 ∧ ∀ q, q ≠ p → t ∉ s.threadsAt q

/-- The current thread sleeps in a queue. -/
theorem Moved.sleep {s' : Kernel τ} {q : Place} {r : Resume} (ht : s.currentThread = some t)
    (hq : q ≠ .running) (hforked : s'.forked = s.forked) (hfinished : s'.finished = s.finished)
    (h : s'.threadsAt = Function.update s.threadsAt q (s.threadsAt q ++ [t])) :
    s.Moved (s'.sleep t r) := by
  refine ⟨by simpa [Kernel.sleep] using hforked, by simpa [Kernel.sleep] using hfinished, ?_⟩
  intro members hexact
  rw [threadsAt_sleep ht hq h]
  exact (hexact.move .running q).move .ready .running

variable {i l c : ℕ} {r : Resume}

theorem moved_p (ht : s.currentThread = some t) : s.Moved (s.p t i) := by
  unfold Kernel.p
  simp only
  split_ifs with hvalue
  · exact Moved.sleep ht (q := .semaphore i) nofun rfl rfl (threadsAt_semaphore s i _)
  · exact Moved.of_same rfl rfl
      ((threadsAt_semaphore s i _).trans (Function.update_eq_self _ _))

/-- Who does not get the lock is queued for it. -/
theorem waitingThreads_acquire (lock : Lock τ) (t : τ) :
    (lock.acquire t).waitingThreads =
      if (lock.acquire t).HeldBy t then lock.waitingThreads else lock.waitingThreads ++ [t] := by
  unfold Lock.acquire
  split_ifs with hheld hfree hgot
  · rfl
  · rfl
  · exact absurd rfl hgot
  · exact absurd ‹_› hheld
  · rfl

theorem moved_acquire (ht : s.currentThread = some t) : s.Moved (s.acquire t l r) := by
  unfold Kernel.acquire
  simp only
  have hqueue := waitingThreads_acquire (s.locks l) t
  split_ifs with hheld
  · rw [if_pos hheld] at hqueue
    refine Moved.of_same rfl rfl ((threadsAt_lock s l ((s.locks l).acquire t)).trans ?_)
    rw [hqueue]
    exact Function.update_eq_self _ _
  · rw [if_neg hheld] at hqueue
    refine Moved.sleep ht (q := .lock l) nofun rfl rfl
      ((threadsAt_lock s l ((s.locks l).acquire t)).trans ?_)
    rw [hqueue]
    rfl

/-- `Release` takes the thread that gets the lock out of the queue. -/
theorem waitingThreads_release (lock : Lock τ) (t : τ) :
    (lock.next t = none ∧ (lock.release t).waitingThreads = lock.waitingThreads) ∨
      ∃ u rest, lock.next t = some u ∧ lock.waitingThreads = u :: rest ∧
        (lock.release t).waitingThreads = rest := by
  unfold Lock.next Lock.release
  split_ifs with hheld
  · cases hqueue : lock.waitingThreads with
    | nil => exact Or.inl ⟨rfl, rfl⟩
    | cons u rest => exact Or.inr ⟨u, rest, rfl, rfl, rfl⟩
  · exact Or.inl ⟨rfl, rfl⟩

theorem moved_release : s.Moved (s.release t l) := by
  unfold Kernel.release
  simp only
  rcases waitingThreads_release (s.locks l) t with ⟨hnext, hqueue⟩ | ⟨u, rest, hnext, hhead, hqueue⟩
  · rw [hnext, Option.toList_none, List.append_nil]
    refine Moved.of_same rfl rfl ((threadsAt_lock s l ((s.locks l).release t)).trans ?_)
    rw [hqueue]
    exact Function.update_eq_self _ _
  · have hready := threadsAt_readyToRun (q := .lock l) nofun hhead
      ((threadsAt_lock s l ((s.locks l).release t)).trans (by rw [hqueue]))
    rw [hnext, Option.toList_some]
    exact Moved.of_move rfl rfl hready

theorem moved_wait {lock : Option ℕ} (ht : s.currentThread = some t) :
    s.Moved (s.wait t c lock) := by
  cases lock with
  | none => exact Moved.of_same rfl rfl rfl
  | some l =>
    unfold Kernel.wait
    simp only
    split_ifs with hlock
    · exact Moved.of_same rfl rfl rfl
    · -- to queue and then to release is to release and then to queue
      refine (moved_release (t := t) (l := l)).trans
        (Moved.sleep (q := .condition c) ht nofun rfl rfl ?_)
      exact threadsAt_condition (s.release t l) c ⟨some l, (s.conditions c).waitingThreads ++ [t]⟩

omit [DecidableEq τ] in
theorem moved_signal {lock : Option ℕ} : s.Moved (s.signal c lock) := by
  unfold Kernel.signal
  simp only
  split
  next => exact Moved.of_same rfl rfl rfl
  next u rest hqueue =>
    by_cases hlock : (s.conditions c).waitingLock ≠ lock
    · rw [if_pos hlock]
      exact Moved.of_same rfl rfl rfl
    · rw [if_neg hlock]
      have hready := threadsAt_readyToRun (q := .condition c) nofun hqueue
        (threadsAt_condition s c ⟨if rest = [] then none else (s.conditions c).waitingLock, rest⟩)
      exact Moved.of_move rfl rfl hready

theorem moved_broadcast {lock : Option ℕ} : s.Moved (s.broadcast t c lock) := by
  unfold Kernel.broadcast
  simp only
  split_ifs
  · exact Moved.of_same rfl rfl rfl
  · exact moved_signal.trans (Moved.of_same rfl rfl rfl)

theorem moved_acquired : s.Moved (s.acquired t l) := Moved.of_same rfl rfl rfl

theorem moved_goOn (ht : s.currentThread = some t) : s.Moved (s.goOn t r) := by
  cases r with
  | p i => exact moved_p ht
  | acquire l => exact moved_acquired
  | wait c l => exact moved_acquire ht
  | reacquire l => exact moved_acquired
  | broadcast c l => exact moved_broadcast

/-! ### The run -/

/-- **The invariant.** -/
structure PlacedInv (s : Kernel τ) : Prop where
  exact : Exact s.threadsAt s.Alive
  finished : ∀ t ∈ s.finished, t ∈ s.forked

omit [DecidableEq τ] in
theorem PlacedInv.init (main : τ) (values : ℕ → ℕ) : PlacedInv (init main values) := by
  constructor
  · constructor
    · intro t
      constructor
      · intro ht
        exact ⟨.running, by simpa [Kernel.init, threadsAt, Alive, eq_comm] using ht.1⟩
      · rintro ⟨place, hplace⟩
        cases place <;> simp_all [Kernel.init, threadsAt, Alive, Lock.new]
    · intro place
      cases place <;> simp [Kernel.init, threadsAt, Lock.new]
    · intro place place' t h h'
      cases place <;> cases place' <;> simp_all [Kernel.init, threadsAt, Lock.new]
  · intro t ht
    cases ht

omit [DecidableEq τ] in
theorem PlacedInv.moved {s' : Kernel τ} (h : PlacedInv s) (hmoved : s.Moved s') :
    PlacedInv s' := by
  have halive : s'.Alive = s.Alive := by
    funext t
    simp only [Alive, hmoved.forked, hmoved.finished]
  exact ⟨halive ▸ hmoved.exact _ h.exact, by rw [hmoved.forked, hmoved.finished]; exact h.finished⟩

theorem PlacedInv.fork {u : τ} (h : PlacedInv s) (hu : u ∉ s.forked) : PlacedInv (s.fork u) := by
  have hadd := h.exact.add (t := u) (fun hu' => hu hu'.1) .ready
  constructor
  · have hat : (s.fork u).threadsAt = Function.update s.threadsAt .ready (s.threadsAt .ready ++ [u]) := by
      apply threadsAt_eq <;> intros <;> rfl
    have halive : (s.fork u).Alive = fun x => s.Alive x ∨ x = u := by
      funext x
      have hfinished : u ∉ s.finished := fun hu' => hu (h.finished u hu')
      simp only [Kernel.fork, readyToRun, Alive, List.mem_append, List.mem_singleton]
      by_cases hx : x = u
      · simp [hx, hfinished]
      · simp [hx]
    rw [hat, halive]
    exact hadd
  · intro x hx
    exact List.mem_append_left _ (h.finished x hx)

omit [DecidableEq τ] in
theorem PlacedInv.finish (h : PlacedInv s) (ht : s.currentThread = some t) :
    PlacedInv (s.finish t) := by
  have hrunning : s.threadsAt .running = [t] := by simp [threadsAt, ht]
  have halive : s.Alive t := (h.exact.mem t).mpr ⟨.running, by simp [hrunning]⟩
  constructor
  · have halive' : (s.finish t).Alive = fun x => s.Alive x ∧ x ≠ t := by
      funext x
      simp only [Kernel.finish, Alive, run_forked, run_finished, List.mem_append,
        List.mem_singleton, not_or, ne_eq, and_assoc]
    rw [halive', Kernel.finish, threadsAt_run]
    exact (h.exact.remove hrunning).move .ready .running
  · intro x hx
    rw [Kernel.finish, run_finished, List.mem_append, List.mem_singleton] at hx
    rw [Kernel.finish, run_forked]
    rcases hx with hx | rfl
    · exact h.finished x hx
    · exact halive.1

omit [DecidableEq τ] in
theorem moved_run (h : s.currentThread = none) : s.Moved s.run := by
  refine Moved.of_move (p := .ready) (q := .running) run_forked run_finished ?_
  rw [threadsAt_run]
  congr 1
  exact Function.update_eq_iff.mpr ⟨by simp [threadsAt, h], fun _ _ => rfl⟩

/-- **One step.** -/
theorem PlacedInv.step {s' : Kernel τ} {e : Event τ} (h : PlacedInv s)
    (hs : kernelStep s e = .ok s') : PlacedInv s' := by
  rcases kernelStep_cases hs with ⟨t, c, -, ht, hc, rfl⟩ | ⟨t, r, -, ht, -, rfl⟩ | ⟨i, -, rfl⟩ |
    ⟨-, ht, rfl⟩
  · cases c with
    | p i => exact h.moved (moved_p ht)
    | v i => exact h.moved moved_v
    | acquire l => exact h.moved (moved_acquire ht)
    | release l => exact h.moved moved_release
    | wait c l => exact h.moved (moved_wait ht)
    | signal c l => exact h.moved moved_signal
    | broadcast c l => exact h.moved moved_broadcast
    | yield => exact h.moved (moved_yield ht)
    | fork u =>
      refine h.fork ?_
      unfold Kernel.Accepts at hc
      split at hc
      all_goals first | cases ‹Call.fork u = _›; exact hc | simp_all
    | finish => exact h.finish ht
  · exact h.moved (moved_goOn ht)
  · exact h.moved moved_v
  · exact h.moved (moved_run ht)

end

end Kernel

open Kernel in
/-- **No thread is lost or duplicated** in any run, of any threads. -/
theorem threads_placed {main : τ} [DecidableEq τ] {values : ℕ → ℕ} {events : List (Event τ)}
    {s : Kernel τ} (h : exec kernelStep (init main values) events = .ok s) : s.Placed := by
  have hinv : PlacedInv s :=
    exec_preserves (fun _ _ _ hinv hs => hinv.step hs) (.init main values) h
  intro t ht
  exact hinv.exact.exists_place ht

/-- The main thread sleeps in a semaphore, one thread runs, and one waits for its lock. -/
theorem threads_placed_three :
    ∃ s : Kernel ℕ, exec kernelStep (.init 0 fun _ => 0)
      [.call (.fork 1), .call (.fork 2), .call (.p 0), .call (.acquire 0), .call .yield,
        .call (.acquire 0)] = .ok s ∧
      (s.threadsAt .running = [1] ∧ s.threadsAt (.semaphore 0) = [0] ∧
        s.threadsAt (.lock 0) = [2]) ∧ s.Placed := by
  have hrun : Ends kernelStep (Kernel.init 0 fun _ => 0)
      [.call (.fork 1), .call (.fork 2), .call (.p 0), .call (.acquire 0), .call .yield,
        .call (.acquire 0)] fun s =>
      s.threadsAt .running = [1] ∧ s.threadsAt (.semaphore 0) = [0] ∧
        s.threadsAt (.lock 0) = [2] := by
    decide +kernel
  obtain ⟨s, hs, hend⟩ := hrun
  exact ⟨s, hs, hend, threads_placed hs⟩

end Nachos.Threads
