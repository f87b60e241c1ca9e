import Nachos.Threads.Synch
import Nachos.Lib.Placement

/-!
# The kernel's threads

Semaphores, locks and conditions (`threads/synch.cc`) with the scheduler (`threads/scheduler.cc`)
and `Yield`, `Sleep`, `Fork` and `Finish` (`threads/thread.cc`). Interrupts are disabled in each
of them, so what a thread does before it sleeps is one step, and so is what it does when it is
dispatched again. `Broadcast` alone is a loop of steps, between which interrupts are enabled.

A step is a call of the current thread, the rest of a call in which it has slept, the `V` of an
interrupt handler, or the end of an idle time. The time slices are the calls of `Yield`.

* `kernelStep_cases`: what a step can do.
-/

namespace Nachos.Threads

open Nachos.Lib

/-! ## The state -/

/-- `class Semaphore` (synch.h). -/
structure Semaphore (τ : Type) where
  value : ℕ
  queue : List τ

/-- `class Condition` (synch.h); a lock is named by a number. -/
structure Condition (τ : Type) where
  waitingLock : Option ℕ
  waitingThreads : List τ

/-- Where a thread goes on in a call, after it has slept or between two signals. -/
inductive Resume
  | p (sem : ℕ)
  | acquire (lock : ℕ)
  | wait (cond lock : ℕ)
  /-- In the `Acquire` at the end of `Wait`. -/
  | reacquire (lock : ℕ)
  | broadcast (cond : ℕ) (lock : Option ℕ)
  deriving DecidableEq

/-- What has happened, which no thread reads. -/
structure History (τ : Type) where
  /-- The threads that have completed an `Acquire` of a lock and not released it since. -/
  inside : ℕ → List τ
  /-- The threads that had to queue for a lock. -/
  queued : ℕ → List τ
  /-- The threads that a lock has been handed to. -/
  granted : ℕ → List τ
  /-- The threads that have waited on a condition. -/
  waited : ℕ → List τ
  /-- The threads that a signal has woken. -/
  woken : ℕ → List τ

/-- The kernel. The idle processor has no current thread. -/
structure Kernel (τ : Type) where
  semaphores : ℕ → Semaphore τ
  locks : ℕ → Lock τ
  conditions : ℕ → Condition τ
  readyList : List τ
  currentThread : Option τ
  resume : τ → Option Resume
  forked : List τ
  finished : List τ
  history : History τ

/-- A kernel call. `NULL` is `none`. -/
inductive Call (τ : Type)
  | p (sem : ℕ)
  | v (sem : ℕ)
  | acquire (lock : ℕ)
  | release (lock : ℕ)
  | wait (cond : ℕ) (lock : Option ℕ)
  | signal (cond : ℕ) (lock : Option ℕ)
  | broadcast (cond : ℕ) (lock : Option ℕ)
  | yield
  | fork (thread : τ)
  | finish

variable {τ : Type}

section

variable [DecidableEq τ]

/-- The thread that gets the lock from `Release`. -/
def Lock.next (l : Lock τ) (t : τ) : Option τ :=
  if l.HeldBy t then l.waitingThreads.head? else none

namespace Kernel

/-- The main thread runs, and nothing has happened. -/
def init (main : τ) (values : ℕ → ℕ) : Kernel τ where
  semaphores i := ⟨values i, []⟩
  locks _ := .new
  conditions _ := ⟨none, []⟩
  readyList := []
  currentThread := some main
  resume _ := none
  forked := [main]
  finished := []
  history := ⟨fun _ => [], fun _ => [], fun _ => [], fun _ => [], fun _ => []⟩

/-! ## The scheduler -/

/-- `Scheduler::ReadyToRun` (scheduler.cc:53). -/
def readyToRun (s : Kernel τ) (t : τ) : Kernel τ := { s with readyList := s.readyList ++ [t] }

/-- `FindNextToRun` and `Run` (scheduler.cc:70, 90); with no thread ready the processor idles. -/
def run (s : Kernel τ) : Kernel τ :=
  match s.readyList with
  | [] => { s with currentThread := none }
  | t :: rest => { s with currentThread := some t, readyList := rest }

/-- `Thread::Sleep` (thread.cc:214), in a queue. -/
def sleep (s : Kernel τ) (t : τ) (r : Resume) : Kernel τ :=
  { s with resume := Function.update s.resume t (some r) }.run

/-- The call of a thread returns. -/
def done (s : Kernel τ) (t : τ) : Kernel τ :=
  { s with resume := Function.update s.resume t none }

/-- `Thread::Yield` (thread.cc:174). -/
def yield (s : Kernel τ) (t : τ) : Kernel τ :=
  match s.readyList with
  | [] => s
  | next :: rest => { s with currentThread := some next, readyList := rest ++ [t] }

/-- `Thread::Fork` (thread.cc:88) of a new thread. -/
def fork (s : Kernel τ) (t : τ) : Kernel τ :=
  { s with forked := s.forked ++ [t] }.readyToRun t

/-- `Thread::Finish` (thread.cc:145). -/
def finish (s : Kernel τ) (t : τ) : Kernel τ :=
  { s with finished := s.finished ++ [t] }.run

/-! ## Semaphores -/

/-- One test of the loop of `Semaphore::P` (synch.cc:64). -/
def p (s : Kernel τ) (t : τ) (i : ℕ) : Kernel τ :=
  let sem := s.semaphores i
  if sem.value = 0 then
    { s with
      semaphores := Function.update s.semaphores i { sem with queue := sem.queue ++ [t] } }.sleep
      t (.p i)
  else
    { s with
      semaphores := Function.update s.semaphores i { sem with value := sem.value - 1 } }.done t

/-- `Semaphore::V` (synch.cc:86). -/
def v (s : Kernel τ) (i : ℕ) : Kernel τ :=
  let sem := s.semaphores i
  match sem.queue with
  | [] => { s with
      semaphores := Function.update s.semaphores i { sem with value := sem.value + 1 } }
  | t :: rest => { s with
      semaphores := Function.update s.semaphores i ⟨sem.value + 1, rest⟩ }.readyToRun t

/-! ## Locks -/

/-- `Lock::Acquire` (synch.cc:120); the thread that sleeps in it goes on at `r`. -/
def acquire (s : Kernel τ) (t : τ) (l : ℕ) (r : Resume) : Kernel τ :=
  let lock := (s.locks l).acquire t
  if lock.HeldBy t then
    { s with
      locks := Function.update s.locks l lock
      history := { s.history with
        inside := Function.update s.history.inside l (t :: (s.history.inside l).filter (· ≠ t)) } }.done t
  else
    { s with
      locks := Function.update s.locks l lock
      history := { s.history with
        queued := Function.update s.history.queued l (s.history.queued l ++ [t]) } }.sleep t r

/-- The thread returns from the sleep in `Acquire`. -/
def acquired (s : Kernel τ) (t : τ) (l : ℕ) : Kernel τ :=
  { s with
    history := { s.history with
      inside := Function.update s.history.inside l (t :: (s.history.inside l).filter (· ≠ t)) } }.done t

/-- `Lock::Release` (synch.cc:153). -/
def release (s : Kernel τ) (t : τ) (l : ℕ) : Kernel τ :=
  let next := (s.locks l).next t
  { s with
    locks := Function.update s.locks l ((s.locks l).release t)
    readyList := s.readyList ++ next.toList
    history := { s.history with
      inside := Function.update s.history.inside l ((s.history.inside l).filter (· ≠ t))
      granted := Function.update s.history.granted l (s.history.granted l ++ next.toList) } }

/-! ## Conditions -/

/-- `Condition::Wait` (synch.cc:210), up to its `Sleep`. -/
def wait (s : Kernel τ) (t : τ) (c : ℕ) (conditionLock : Option ℕ) : Kernel τ :=
  match conditionLock with
  | none => s
  | some l =>
    let cond := s.conditions c
    -- the first thread that waits saves the lock
    if l ≠ cond.waitingLock.getD l then s
    else
      ({ s with
        conditions := Function.update s.conditions c ⟨some l, cond.waitingThreads ++ [t]⟩
        history := { s.history with
          waited := Function.update s.history.waited c (s.history.waited c ++ [t]) } }.release
        t l).sleep t (.wait c l)

/-- `Condition::Signal` (synch.cc:253). -/
def signal (s : Kernel τ) (c : ℕ) (conditionLock : Option ℕ) : Kernel τ :=
  let cond := s.conditions c
  match cond.waitingThreads with
  | [] => s
  | t :: rest =>
    if cond.waitingLock ≠ conditionLock then s
    else
      { s with
        conditions := Function.update s.conditions c
          ⟨if rest = [] then none else cond.waitingLock, rest⟩
        history := { s.history with
          woken := Function.update s.history.woken c (s.history.woken c ++ [t]) } }.readyToRun t

/-- One round of the loop of `Condition::Broadcast` (synch.cc:288). -/
def broadcast (s : Kernel τ) (t : τ) (c : ℕ) (conditionLock : Option ℕ) : Kernel τ :=
  if (s.conditions c).waitingThreads = [] then s.done t
  else
    let s := s.signal c conditionLock
    { s with resume := Function.update s.resume t (some (.broadcast c conditionLock)) }

/-! ## Steps -/

/-- The current thread calls the kernel. -/
def perform (s : Kernel τ) (t : τ) : Call τ → Kernel τ
  | .p i => s.p t i
  | .v i => s.v i
  | .acquire l => s.acquire t l (.acquire l)
  | .release l => s.release t l
  | .wait c l => s.wait t c l
  | .signal c l => s.signal c l
  | .broadcast c l => s.broadcast t c l
  | .yield => s.yield t
  | .fork u => s.fork u
  | .finish => s.finish t

/-- The current thread goes on in a call. -/
def goOn (s : Kernel τ) (t : τ) : Resume → Kernel τ
  | .p i => s.p t i
  | .acquire l => s.acquired t l
  | .wait _ l => s.acquire t l (.reacquire l)
  | .reacquire l => s.acquired t l
  | .broadcast c l => s.broadcast t c l

end Kernel

/-- A step of the system. -/
inductive Event (τ : Type)
  | call (c : Call τ)
  | resume
  /-- The `V` of an interrupt handler. -/
  | interrupt (sem : ℕ)
  /-- The idle processor finds a thread. -/
  | dispatch

/-- A step that the system cannot take. -/
inductive Impossible
  | impossible

/-- The current thread can make a call: it is in no other one, only that its time slice can end
    between two signals. A thread is forked once. -/
def Kernel.Accepts (s : Kernel τ) (t : τ) (c : Call τ) : Prop :=
  match s.resume t, c with
  | none, .fork u => u ∉ s.forked
  | none, _ => True
  | some (.broadcast _ _), .yield => True
  | some _, _ => False

instance (s : Kernel τ) (t : τ) (c : Call τ) : Decidable (s.Accepts t c) := by
  unfold Kernel.Accepts
  split <;> infer_instance

/-- **A step.** -/
def kernelStep (s : Kernel τ) : Event τ → Except Impossible (Kernel τ)
  | .call c =>
    match s.currentThread with
    | none => .error .impossible
    | some t =>
      if s.Accepts t c then .ok (s.perform t c) else .error .impossible
  | .resume =>
    match s.currentThread with
    | none => .error .impossible
    | some t =>
      match s.resume t with
      | none => .error .impossible
      | some r => .ok (s.goOn t r)
  | .interrupt i => .ok (s.v i)
  | .dispatch =>
    match s.currentThread with
    | some _ => .error .impossible
    | none => .ok s.run

/-- **What a step can do.** -/
theorem kernelStep_cases {s s' : Kernel τ} {e : Event τ} (h : kernelStep s e = .ok s') :
    (∃ t c, e = .call c ∧ s.currentThread = some t ∧ s.Accepts t c ∧ s' = s.perform t c) ∨
      (∃ t r, e = .resume ∧ s.currentThread = some t ∧ s.resume t = some r ∧ s' = s.goOn t r) ∨
      (∃ i, e = .interrupt i ∧ s' = s.v i) ∨
      e = .dispatch ∧ s.currentThread = none ∧ s' = s.run := by
  cases e with
  | call c =>
    cases ht : s.currentThread with
    | none => simp [kernelStep, ht] at h
    | some t =>
      simp only [kernelStep, ht] at h
      split_ifs at h with hc
      exact Or.inl ⟨t, c, rfl, rfl, hc, (Except.ok.inj h).symm⟩
  | resume =>
    cases ht : s.currentThread with
    | none => simp [kernelStep, ht] at h
    | some t =>
      cases hr : s.resume t with
      | none => simp [kernelStep, ht, hr] at h
      | some r =>
        simp only [kernelStep, ht, hr] at h
        exact Or.inr (Or.inl ⟨t, r, rfl, rfl, hr, (Except.ok.inj h).symm⟩)
  | interrupt i => exact Or.inr (Or.inr (Or.inl ⟨i, rfl, (Except.ok.inj h).symm⟩))
  | dispatch =>
    cases ht : s.currentThread with
    | some t => simp [kernelStep, ht] at h
    | none =>
      simp only [kernelStep, ht] at h
      exact Or.inr (Or.inr (Or.inr ⟨rfl, rfl, (Except.ok.inj h).symm⟩))

/-! ## Fields -/

end

section

variable {s : Kernel τ} {t : τ}

namespace Kernel

@[simp] theorem run_semaphores : s.run.semaphores = s.semaphores := by
  unfold run
  split <;> rfl

@[simp] theorem run_locks : s.run.locks = s.locks := by
  unfold run
  split <;> rfl

@[simp] theorem run_conditions : s.run.conditions = s.conditions := by
  unfold run
  split <;> rfl

@[simp] theorem run_resume : s.run.resume = s.resume := by
  unfold run
  split <;> rfl

@[simp] theorem run_forked : s.run.forked = s.forked := by
  unfold run
  split <;> rfl

@[simp] theorem run_finished : s.run.finished = s.finished := by
  unfold run
  split <;> rfl

@[simp] theorem run_history : s.run.history = s.history := by
  unfold run
  split <;> rfl

end Kernel

end

end Nachos.Threads
