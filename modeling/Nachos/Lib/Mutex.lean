import Mathlib

/-!
# Mutexes and monitors

The abstract lock behind every blocking lock: at most one holder, and a queue of
those who wait. A release hands the mutex to the first in the queue. A monitor is
a mutex with a condition on which its holders wait.

* `acquire_of_free`, `acquire_of_held`: what an acquire does.
* `acquireAll_of_held`: what acquiring for a list of clients, one after the other,
  amounts to.
* `signal_of_held`, `broadcast_of_held`: a holder's wake-up moves waiters to the
  end of the mutex's queue.
-/

namespace Nachos.Lib

/-- A mutex: the type of `holder` is what says that there is at most one. -/
@[ext]
structure Mutex (α : Type) where
  holder : Option α
  queue : List α
  deriving DecidableEq, Repr

namespace Mutex

variable {α : Type} (m : Mutex α) (a : α)

/-- Nobody holds the mutex and nobody waits. -/
def free : Mutex α := ⟨none, []⟩

/-- Take the mutex if it is free, otherwise wait. -/
def acquire : Mutex α :=
  match m.holder with
  | none => { m with holder := some a }
  | some _ => { m with queue := m.queue ++ [a] }

/-- Give the mutex up; the first in the queue gets it. -/
def release : Mutex α := ⟨m.queue.head?, m.queue.tail⟩

/-- Acquire for each of a list in turn. -/
def acquireAll (l : List α) : Mutex α := l.foldl acquire m

theorem acquire_of_free (h : m.holder = none) : m.acquire a = { m with holder := some a } := by
  rw [acquire, h]

theorem acquire_of_held {b : α} (h : m.holder = some b) :
    m.acquire a = { m with queue := m.queue ++ [a] } := by
  rw [acquire, h]

/-- A holder keeps the mutex when others acquire it. -/
theorem acquire_holder {b : α} (h : m.holder = some b) : (m.acquire a).holder = some b := by
  rw [acquire_of_held m a h, h]

theorem acquireAll_cons (l : List α) : m.acquireAll (a :: l) = (m.acquire a).acquireAll l := rfl

/-- While the mutex is held, those who acquire it are queued in their order. -/
theorem acquireAll_of_held {b : α} (h : m.holder = some b) (l : List α) :
    m.acquireAll l = { m with queue := m.queue ++ l } := by
  induction l generalizing m with
  | nil => simp [acquireAll]
  | cons a l ih =>
    rw [acquireAll_cons, ih _ (m.acquire_holder a h), acquire_of_held m a h]
    simp

end Mutex

/-- A mutex and those who wait on its condition. -/
@[ext]
structure Monitor (α : Type) where
  mutex : Mutex α
  waiters : List α
  deriving DecidableEq, Repr

namespace Monitor

variable {α : Type} (m : Monitor α)

/-- Give the mutex up and wait on the condition. -/
def wait (a : α) : Monitor α := ⟨m.mutex.release, m.waiters ++ [a]⟩

/-- The longest-waiting client acquires the mutex. -/
def signal : Monitor α := ⟨m.mutex.acquireAll (m.waiters.take 1), m.waiters.drop 1⟩

/-- All waiting clients acquire the mutex. -/
def broadcast : Monitor α := ⟨m.mutex.acquireAll m.waiters, []⟩

theorem signal_of_held {b : α} (h : m.mutex.holder = some b) :
    m.signal = ⟨{ m.mutex with queue := m.mutex.queue ++ m.waiters.take 1 }, m.waiters.drop 1⟩ := by
  rw [signal, m.mutex.acquireAll_of_held h]

theorem broadcast_of_held {b : α} (h : m.mutex.holder = some b) :
    m.broadcast = ⟨{ m.mutex with queue := m.mutex.queue ++ m.waiters }, []⟩ := by
  rw [broadcast, m.mutex.acquireAll_of_held h]

/-- Waking somebody up changes nothing if nobody waits. -/
theorem signal_of_nobody (h : m.waiters = []) : m.signal = m := by
  obtain ⟨mutex, waiters⟩ := m
  cases h
  rfl

theorem broadcast_of_nobody (h : m.waiters = []) : m.broadcast = m := by
  obtain ⟨mutex, waiters⟩ := m
  cases h
  rfl

end Monitor

end Nachos.Lib
