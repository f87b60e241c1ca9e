import Nachos.Lib.Run

/-!
# Kernel locks

`Lock::Acquire` and `Lock::Release` (`threads/synch.cc`, lines 120-185) over an
arbitrary type of threads. Interrupts are disabled inside both, so each is one
step; a thread that is put to sleep goes on when `Release` has made it the owner.

An `Acquire` by the owner changes nothing, and is not counted: the first
`Release` gives the lock away.

* `FreeIff.owner_acquire`, `owner_release_of_ne`: other threads do not take the lock
  from its owner.
-/

namespace Nachos.Threads

/-- The two states of a lock (synch.h). -/
inductive LockState
  | free
  | busy
  deriving DecidableEq, Repr

/-- `class Lock` (synch.h). -/
structure Lock (τ : Type) where
  state : LockState
  owner : Option τ
  waitingThreads : List τ
  deriving Repr

namespace Lock

variable {τ : Type}

/-- The constructor. -/
def new : Lock τ := ⟨.free, none, []⟩

section

variable [DecidableEq τ]

/-- `isHeldByCurrentThread`, for the thread `t`. -/
def HeldBy (l : Lock τ) (t : τ) : Prop := l.owner = some t

instance (l : Lock τ) (t : τ) : Decidable (l.HeldBy t) := inferInstanceAs (Decidable (_ = _))

/-- `Lock::Acquire` (synch.cc:120). The thread sleeps if it is not the owner
    afterwards. -/
def acquire (l : Lock τ) (t : τ) : Lock τ :=
  if l.HeldBy t then l
  else if l.state = .free then { l with state := .busy, owner := some t }
  else { l with waitingThreads := l.waitingThreads ++ [t] }

/-- `Lock::Release` (synch.cc:153). -/
def release (l : Lock τ) (t : τ) : Lock τ :=
  if l.HeldBy t then
    match l.waitingThreads with
    | thread :: rest => { l with owner := some thread, waitingThreads := rest }
    | [] => { l with state := .free, owner := none }
  else l

end

/-- A lock is free when it has no owner. -/
def FreeIff (l : Lock τ) : Prop := l.state = .free ↔ l.owner = none

theorem freeIff_new : (new : Lock τ).FreeIff := ⟨fun _ => rfl, fun _ => rfl⟩

variable [DecidableEq τ] {l : Lock τ} {t t' : τ}

theorem FreeIff.acquire (h : l.FreeIff) : (l.acquire t).FreeIff := by
  unfold Lock.acquire
  split_ifs with hheld hfree
  · exact h
  · simp [FreeIff]
  · exact h

theorem FreeIff.release (h : l.FreeIff) : (l.release t).FreeIff := by
  unfold Lock.release
  split_ifs with hheld
  · split
    · have hbusy : l.state ≠ .free := fun hfree => by
        rw [HeldBy, h.mp hfree] at hheld
        cases hheld
      simp [FreeIff, hbusy]
    · simp [FreeIff]
  · exact h

/-- **The owner stays** when another thread asks for the lock. -/
theorem FreeIff.owner_acquire (h : l.FreeIff) (ht : l.HeldBy t) : (l.acquire t').HeldBy t := by
  unfold Lock.acquire
  split_ifs with hheld hfree
  · exact ht
  · rw [HeldBy, h.mp hfree] at ht
    cases ht
  · exact ht

/-- **The owner stays** when another thread releases the lock. -/
theorem owner_release_of_ne (ht : l.HeldBy t) (hne : t' ≠ t) : (l.release t').HeldBy t := by
  have hheld : ¬ l.HeldBy t' := fun hheld => hne (Option.some_injective _ (hheld.symm.trans ht))
  rwa [Lock.release, if_neg hheld]

end Lock

end Nachos.Threads
