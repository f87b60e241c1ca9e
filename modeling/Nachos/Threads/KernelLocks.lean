import Nachos.Threads.Placed

/-!
# The kernel's locks

`Release` hands a lock over to a thread that is still asleep, and leaves it busy. Between that and
the thread's return from `Acquire` the lock has an owner that does not know of it.

* `locks_safe`: a lock is free if and only if it has no owner, then nobody waits for it, at most
  one thread is between an `Acquire` and its `Release`, and the lock goes round in the order of
  the queue.
-/

namespace Nachos.Threads

open Nachos.Lib

variable {τ : Type}

/-! ## One lock -/

/-- A lock is free if and only if it has no owner; nobody waits for a free lock, and the owner
    does not wait for its own. -/
structure Lock.Ok (lock : Lock τ) : Prop where
  free_iff : lock.state = .free ↔ lock.owner = none
  waitingThreads : lock.state = .free → lock.waitingThreads = []
  owner : ∀ t, lock.owner = some t → t ∉ lock.waitingThreads

theorem Lock.Ok.new : (Lock.new : Lock τ).Ok := by
  constructor <;> simp [Lock.new]

section

variable [DecidableEq τ] {lock : Lock τ} {t u : τ}

theorem Lock.Ok.acquire (h : lock.Ok) : (lock.acquire t).Ok := by
  unfold Lock.acquire
  split_ifs with hheld hfree
  · exact h
  · constructor
    · simp
    · intro hbusy
      cases hbusy
    · intro u _
      show u ∉ lock.waitingThreads
      simp [h.waitingThreads hfree]
  · constructor
    · exact h.free_iff
    · intro hfree'
      exact absurd hfree' hfree
    · intro u hu hmem
      rcases List.mem_append.mp hmem with hmem | hmem
      · exact h.owner u hu hmem
      · rw [List.mem_singleton.mp hmem] at hu
        exact hheld hu

theorem Lock.Ok.release (h : lock.Ok) (hnodup : lock.waitingThreads.Nodup) :
    (lock.release t).Ok := by
  unfold Lock.release
  split_ifs with hheld
  · cases hqueue : lock.waitingThreads with
    | nil => constructor <;> simp
    | cons u rest =>
      rw [hqueue, List.nodup_cons] at hnodup
      have hbusy : lock.state ≠ .free := by
        intro hfree
        have := h.waitingThreads hfree
        rw [hqueue] at this
        cases this
      constructor
      · simp [hbusy]
      · intro hfree
        exact absurd hfree hbusy
      · intro v hv
        cases hv
        exact hnodup.1
  · exact h

/-- The thread that leaves the queue is the new owner. -/
theorem Lock.owner_release (h : lock.next t = some u) : (lock.release t).owner = some u := by
  unfold Lock.next at h
  unfold Lock.release
  split_ifs at h ⊢
  cases hqueue : lock.waitingThreads with
  | nil => simp [hqueue] at h
  | cons v rest => simpa [hqueue] using h

/-- Who owns the lock owns it after another thread has asked for it. -/
theorem Lock.Ok.owner_acquire (h : lock.Ok) (hu : lock.owner = some u) :
    (lock.acquire t).owner = some u :=
  Lock.FreeIff.owner_acquire h.free_iff hu

end

/-! ## The invariant -/

/-- **The locks** are safe. -/
structure Kernel.LocksSafe (s : Kernel τ) : Prop where
  lock : ∀ l, (s.locks l).Ok
  /-- At most one thread is between a completed `Acquire` and its `Release`: the owner. -/
  inside : ∀ l t, t ∈ s.history.inside l → (s.locks l).owner = some t
  /-- The lock has been handed to the first threads that have queued, in order. -/
  queued : ∀ l, s.history.queued l = s.history.granted l ++ (s.locks l).waitingThreads

/-- The thread sleeps in an `Acquire` of the lock. -/
def Resume.Acquiring (r : Option Resume) (l : ℕ) : Prop :=
  r = some (.acquire l) ∨ r = some (.reacquire l)

/-- **The invariant.** -/
structure LocksInv (s : Kernel τ) : Prop extends s.LocksSafe where
  asleep : ∀ l, ∀ t ∈ (s.locks l).waitingThreads, Resume.Acquiring (s.resume t) l
  /-- Who sleeps in an `Acquire` waits for the lock, or has been given it. -/
  granted : ∀ l t, Resume.Acquiring (s.resume t) l →
    t ∈ (s.locks l).waitingThreads ∨ (s.locks l).owner = some t

namespace LocksInv

open Kernel

variable [DecidableEq τ] {s : Kernel τ} {t : τ} {l : ℕ}

omit [DecidableEq τ] in
theorem init (main : τ) (values : ℕ → ℕ) : LocksInv (Kernel.init main values) := by
  constructor
  · constructor
    · intro l
      exact Lock.Ok.new
    · intro l t ht
      cases ht
    · intro l
      rfl
  · intro l t ht
    cases ht
  · intro l t ht
    rcases ht with ht | ht <;> cases ht

omit [DecidableEq τ] in
/-- Only the locks, what the threads wait for and their history matter. -/
theorem of_eq {s' : Kernel τ} (h : LocksInv s) (hlocks : s'.locks = s.locks)
    (hresume : s'.resume = s.resume) (hinside : s'.history.inside = s.history.inside)
    (hqueued : s'.history.queued = s.history.queued)
    (hgranted : s'.history.granted = s.history.granted) : LocksInv s' := by
  constructor
  · constructor
    · rw [hlocks]
      exact h.lock
    · rw [hlocks, hinside]
      exact h.inside
    · rw [hlocks, hqueued, hgranted]
      exact h.queued
  · rw [hlocks, hresume]
    exact h.asleep
  · rw [hlocks, hresume]
    exact h.granted

/-- A thread that waits for no lock goes on elsewhere. -/
theorem setResume (h : LocksInv s) (ht : ∀ l, t ∉ (s.locks l).waitingThreads) {r : Option Resume}
    (hr : ∀ l, Resume.Acquiring r l → (s.locks l).owner = some t) :
    LocksInv { s with resume := Function.update s.resume t r } := by
  refine ⟨⟨h.lock, h.inside, h.queued⟩, ?_, ?_⟩
  · intro l u hu
    have hne : u ≠ t := fun heq => ht l (heq ▸ hu)
    show Resume.Acquiring (Function.update s.resume t r u) l
    rw [Function.update_of_ne hne]
    exact h.asleep l u hu
  · intro l u hu
    by_cases hut : u = t
    · subst hut
      change Resume.Acquiring (Function.update s.resume u r u) l at hu
      rw [Function.update_self] at hu
      exact Or.inr (hr l hu)
    · change Resume.Acquiring (Function.update s.resume t r u) l at hu
      rw [Function.update_of_ne hut] at hu
      exact h.granted l u hu

omit [DecidableEq τ] in
theorem run (h : LocksInv s) : LocksInv s.run := by
  apply h.of_eq <;> simp

theorem sleep (h : LocksInv s) (ht : ∀ l, t ∉ (s.locks l).waitingThreads) {r : Resume}
    (hr : ∀ l, ¬ Resume.Acquiring (some r) l) : LocksInv (s.sleep t r) := by
  have hset := h.setResume ht (r := some r) fun l hl => absurd hl (hr l)
  exact hset.run

theorem done (h : LocksInv s) (ht : ∀ l, t ∉ (s.locks l).waitingThreads) : LocksInv (s.done t) := by
  apply h.setResume ht
  intro l hl
  rcases hl with hl | hl <;> cases hl

/-- The thread has the lock, and its `Acquire` is over. -/
theorem acquired (h : LocksInv s) (ht : ∀ l, t ∉ (s.locks l).waitingThreads)
    (howner : (s.locks l).owner = some t) : LocksInv (s.acquired t l) := by
  have hdone := h.done ht
  refine ⟨⟨hdone.lock, ?_, hdone.queued⟩, hdone.asleep, hdone.granted⟩
  intro k u hu
  change u ∈ Function.update s.history.inside l _ k at hu
  by_cases hk : k = l
  · subst hk
    rw [Function.update_self, List.mem_cons] at hu
    rcases hu with rfl | hu
    · exact howner
    · exact h.inside k u (List.mem_of_mem_filter hu)
  · rw [Function.update_of_ne hk] at hu
    exact h.inside k u hu

/-- **`Acquire`.** -/
theorem acquire (h : LocksInv s) (ht : ∀ l, t ∉ (s.locks l).waitingThreads) {r : Resume}
    (hr : Resume.Acquiring (some r) l) : LocksInv (s.acquire t l r) := by
  have hqueue := waitingThreads_acquire (s.locks l) t
  have hok : ((s.locks l).acquire t).Ok := (h.lock l).acquire
  -- the locks of which nothing else changes
  have hother : ∀ {k : ℕ}, k ≠ l →
      Function.update s.locks l ((s.locks l).acquire t) k = s.locks k := fun hk =>
    Function.update_of_ne hk _ _
  have hself : Function.update s.locks l ((s.locks l).acquire t) l = (s.locks l).acquire t :=
    Function.update_self ..
  unfold Kernel.acquire
  simp only
  split_ifs with hheld
  · rw [if_pos hheld] at hqueue
    have hlocks : LocksInv
        { s with locks := Function.update s.locks l ((s.locks l).acquire t) } := by
      refine ⟨⟨?_, ?_, ?_⟩, ?_, ?_⟩
      · intro k
        by_cases hk : k = l
        · subst hk
          simpa only [hself] using hok
        · simpa only [hother hk] using h.lock k
      · intro k u hu
        by_cases hk : k = l
        · subst hk
          simpa only [hself] using (h.lock k).owner_acquire (h.inside k u hu)
        · simpa only [hother hk] using h.inside k u hu
      · intro k
        by_cases hk : k = l
        · subst hk
          simpa only [hself, hqueue] using h.queued k
        · simpa only [hother hk] using h.queued k
      · intro k u hu
        by_cases hk : k = l
        · subst hk
          simp only [hself, hqueue] at hu
          exact h.asleep k u hu
        · simp only [hother hk] at hu
          exact h.asleep k u hu
      · intro k u hu
        by_cases hk : k = l
        · subst hk
          simp only [hself, hqueue]
          exact (h.granted k u hu).imp_right fun hu => (h.lock k).owner_acquire hu
        · simp only [hother hk]
          exact h.granted k u hu
    have hfree : ∀ k, t ∉ (Function.update s.locks l ((s.locks l).acquire t) k).waitingThreads := by
      intro k
      by_cases hk : k = l
      · subst hk
        rw [hself, hqueue]
        exact ht k
      · rw [hother hk]
        exact ht k
    exact hlocks.acquired hfree ((congrArg Lock.owner hself).trans hheld)
  · rw [if_neg hheld] at hqueue
    have hwaits : LocksInv
        { s with
          locks := Function.update s.locks l ((s.locks l).acquire t)
          resume := Function.update s.resume t (some r)
          history := { s.history with
            queued := Function.update s.history.queued l (s.history.queued l ++ [t]) } } := by
      refine ⟨⟨?_, ?_, ?_⟩, ?_, ?_⟩
      · intro k
        by_cases hk : k = l
        · subst hk
          simpa only [hself] using hok
        · simpa only [hother hk] using h.lock k
      · intro k u hu
        by_cases hk : k = l
        · subst hk
          simpa only [hself] using (h.lock k).owner_acquire (h.inside k u hu)
        · simpa only [hother hk] using h.inside k u hu
      · intro k
        by_cases hk : k = l
        · subst hk
          simp only [hself, hqueue, Function.update_self, h.queued k, List.append_assoc]
        · simpa only [hother hk, Function.update_of_ne hk] using h.queued k
      · intro k u hu
        by_cases hu' : u = t
        · subst hu'
          by_cases hk : k = l
          · subst hk
            simpa only [Function.update_self] using hr
          · simp only [hother hk] at hu
            exact absurd hu (ht k)
        · simp only [Function.update_of_ne hu']
          by_cases hk : k = l
          · subst hk
            simp only [hself, hqueue, List.mem_append, List.mem_singleton, hu', or_false] at hu
            exact h.asleep k u hu
          · simp only [hother hk] at hu
            exact h.asleep k u hu
      · intro k u hu
        by_cases hu' : u = t
        · subst hu'
          simp only [Function.update_self] at hu
          -- the thread waits for one lock only
          have hk : k = l := by
            rcases hr with hr | hr <;> rcases hu with hu | hu <;> simp_all
          subst hk
          exact Or.inl (by simp [hqueue])
        · simp only [Function.update_of_ne hu'] at hu
          by_cases hk : k = l
          · subst hk
            simp only [hself, hqueue]
            exact (h.granted k u hu).imp (List.mem_append_left _) fun hu =>
              (h.lock k).owner_acquire hu
          · simp only [hother hk]
            exact h.granted k u hu
    exact hwaits.run

/-- **`Release`** by a thread that is in no `Acquire`. -/
theorem release (h : LocksInv s) (hnodup : ∀ l, (s.locks l).waitingThreads.Nodup)
    (ht : ∀ l, ¬ Resume.Acquiring (s.resume t) l) : LocksInv (s.release t l) := by
  have hok : ((s.locks l).release t).Ok := (h.lock l).release (hnodup l)
  have hother : ∀ {k : ℕ}, k ≠ l →
      Function.update s.locks l ((s.locks l).release t) k = s.locks k := fun hk =>
    Function.update_of_ne hk _ _
  have hself : Function.update s.locks l ((s.locks l).release t) l = (s.locks l).release t :=
    Function.update_self ..
  have howner : ∀ u, u ≠ t → (s.locks l).owner = some u →
      ((s.locks l).release t).owner = some u := fun u hu howner =>
    Lock.owner_release_of_ne howner hu.symm
  -- who leaves the queue is the next owner
  have hqueue : (s.locks l).waitingThreads =
      ((s.locks l).next t).toList ++ ((s.locks l).release t).waitingThreads := by
    rcases waitingThreads_release (s.locks l) t with ⟨hnext, hqueue⟩ | ⟨u, rest, hnext, hhead, hqueue⟩
    · rw [hnext, hqueue, Option.toList_none, List.nil_append]
    · rw [hnext, hqueue, hhead, Option.toList_some, List.singleton_append]
  refine ⟨⟨?_, ?_, ?_⟩, ?_, ?_⟩
  · intro k
    show (Function.update s.locks l _ k).Ok
    by_cases hk : k = l
    · subst hk
      rwa [hself]
    · rw [hother hk]
      exact h.lock k
  · intro k u hu
    change u ∈ Function.update s.history.inside l _ k at hu
    show (Function.update s.locks l _ k).owner = some u
    by_cases hk : k = l
    · subst hk
      rw [Function.update_self, List.mem_filter, decide_eq_true_iff] at hu
      rw [hself]
      exact howner u hu.2 (h.inside k u hu.1)
    · rw [Function.update_of_ne hk] at hu
      rw [hother hk]
      exact h.inside k u hu
  · intro k
    show s.history.queued k = Function.update s.history.granted l _ k ++
      (Function.update s.locks l _ k).waitingThreads
    by_cases hk : k = l
    · subst hk
      rw [hself, Function.update_self, h.queued k, List.append_assoc, ← hqueue]
    · rw [hother hk, Function.update_of_ne hk]
      exact h.queued k
  · intro k u hu
    change u ∈ (Function.update s.locks l _ k).waitingThreads at hu
    by_cases hk : k = l
    · subst hk
      rw [hself] at hu
      exact h.asleep k u (by rw [hqueue]; exact List.mem_append_right _ hu)
    · rw [hother hk] at hu
      exact h.asleep k u hu
  · intro k u hu
    show u ∈ (Function.update s.locks l _ k).waitingThreads ∨
      (Function.update s.locks l _ k).owner = some u
    by_cases hk : k = l
    · subst hk
      rw [hself]
      rcases h.granted k u hu with hmem | hmem
      · rw [hqueue, List.mem_append, Option.mem_toList] at hmem
        exact hmem.symm.imp_right fun hnext => Lock.owner_release hnext
      · exact Or.inr (howner u (fun heq => ht k (heq ▸ hu)) hmem)
    · rw [hother hk]
      exact h.granted k u hu

/-! ### Steps -/

omit [DecidableEq τ] in
/-- The current thread waits for no lock. -/
theorem not_waiting (hplaced : PlacedInv s) (ht : s.currentThread = some t) (l : ℕ) :
    t ∉ (s.locks l).waitingThreads := by
  intro hmem
  have hrunning : t ∈ s.threadsAt .running := by simp [threadsAt, ht]
  cases hplaced.exact.unique hrunning (show t ∈ s.threadsAt (.lock l) from hmem)

theorem p {i : ℕ} (h : LocksInv s) (ht : ∀ l, t ∉ (s.locks l).waitingThreads) :
    LocksInv (s.p t i) := by
  unfold Kernel.p
  simp only
  split_ifs
  · have hqueued : LocksInv { s with
        semaphores := Function.update s.semaphores i
          { s.semaphores i with queue := (s.semaphores i).queue ++ [t] } } :=
      h.of_eq rfl rfl rfl rfl rfl
    refine hqueued.sleep ht ?_
    intro l hl
    rcases hl with hl | hl <;> cases hl
  · exact LocksInv.done (h.of_eq rfl rfl rfl rfl rfl) ht

omit [DecidableEq τ] in
theorem v {i : ℕ} (h : LocksInv s) : LocksInv (s.v i) := by
  unfold Kernel.v
  simp only
  split <;> exact h.of_eq rfl rfl rfl rfl rfl

omit [DecidableEq τ] in
theorem signal {c : ℕ} {lock : Option ℕ} (h : LocksInv s) : LocksInv (s.signal c lock) := by
  unfold Kernel.signal
  simp only
  split
  next => exact h
  next =>
    split_ifs
    all_goals first | exact h | exact h.of_eq rfl rfl rfl rfl rfl

omit [DecidableEq τ] in
theorem locks_signal {c : ℕ} {lock : Option ℕ} : (s.signal c lock).locks = s.locks := by
  unfold Kernel.signal
  simp only
  split
  next => rfl
  next => split_ifs <;> rfl

theorem broadcast {c : ℕ} {lock : Option ℕ} (h : LocksInv s)
    (ht : ∀ l, t ∉ (s.locks l).waitingThreads) : LocksInv (s.broadcast t c lock) := by
  unfold Kernel.broadcast
  simp only
  split_ifs
  · exact h.done ht
  · refine h.signal.setResume (by rwa [locks_signal]) ?_
    intro l hl
    rcases hl with hl | hl <;> cases hl

theorem wait {c : ℕ} {lock : Option ℕ} (h : LocksInv s)
    (hnodup : ∀ l, (s.locks l).waitingThreads.Nodup)
    (ht : ∀ l, t ∉ (s.locks l).waitingThreads) (hr : ∀ l, ¬ Resume.Acquiring (s.resume t) l) :
    LocksInv (s.wait t c lock) := by
  cases lock with
  | none => exact h
  | some l =>
    unfold Kernel.wait
    simp only
    split_ifs
    · exact h
    · have hqueued : LocksInv { s with
          conditions := Function.update s.conditions c
            ⟨some l, (s.conditions c).waitingThreads ++ [t]⟩
          history := { s.history with
            waited := Function.update s.history.waited c (s.history.waited c ++ [t]) } } :=
        h.of_eq rfl rfl rfl rfl rfl
      refine (hqueued.release hnodup hr).sleep ?_ ?_
      · intro k hk
        change t ∈ (Function.update s.locks l ((s.locks l).release t) k).waitingThreads at hk
        by_cases hkl : k = l
        · subst hkl
          rw [Function.update_self] at hk
          rcases waitingThreads_release (s.locks k) t with ⟨-, hqueue⟩ | ⟨u, rest, -, hhead, hqueue⟩
          · exact ht k (hqueue ▸ hk)
          · exact ht k (by rw [hhead]; exact List.mem_cons_of_mem _ (hqueue ▸ hk))
        · rw [Function.update_of_ne hkl] at hk
          exact ht k hk
      · intro k hk
        rcases hk with hk | hk <;> cases hk

omit [DecidableEq τ] in
/-- A thread that makes a call is in no `Acquire`. -/
theorem not_acquiring {c : Call τ} (h : s.Accepts t c) (l : ℕ) :
    ¬ Resume.Acquiring (s.resume t) l := by
  intro hl
  unfold Kernel.Accepts at h
  rcases hl with hl | hl <;> simp [hl] at h

/-- **One step.** -/
theorem step {s' : Kernel τ} {e : Event τ} (h : LocksInv s) (hplaced : PlacedInv s)
    (hs : kernelStep s e = .ok s') : LocksInv s' := by
  have hnodup : ∀ l, (s.locks l).waitingThreads.Nodup := fun l => hplaced.exact.nodup (.lock l)
  rcases kernelStep_cases hs with ⟨t, c, -, ht, hc, rfl⟩ | ⟨t, r, -, ht, hr, rfl⟩ | ⟨i, -, rfl⟩ |
    ⟨-, ht, rfl⟩
  · have hwaiting := not_waiting hplaced ht
    have hacquiring := not_acquiring hc
    cases c with
    | p i => exact h.p hwaiting
    | v i => exact h.v
    | acquire l => exact h.acquire hwaiting (Or.inl rfl)
    | release l => exact h.release hnodup hacquiring
    | wait c l => exact h.wait hnodup hwaiting hacquiring
    | signal c l => exact h.signal
    | broadcast c l => exact h.broadcast hwaiting
    | yield =>
      show LocksInv (s.yield t)
      unfold Kernel.yield
      split
      · exact h
      · exact h.of_eq rfl rfl rfl rfl rfl
    | fork u => exact h.of_eq rfl rfl rfl rfl rfl
    | finish => exact LocksInv.run (h.of_eq rfl rfl rfl rfl rfl)
  · have hwaiting := not_waiting hplaced ht
    cases r with
    | p i => exact h.p hwaiting
    | acquire l =>
      exact h.acquired hwaiting ((h.granted l t (Or.inl hr)).resolve_left (hwaiting l))
    | wait c l => exact h.acquire hwaiting (Or.inr rfl)
    | reacquire l =>
      exact h.acquired hwaiting ((h.granted l t (Or.inr hr)).resolve_left (hwaiting l))
    | broadcast c l => exact h.broadcast hwaiting
  · exact h.v
  · exact h.run

end LocksInv

open Kernel in
/-- The invariants of the threads and of the locks. -/
theorem locksInv_of_exec [DecidableEq τ] {main : τ} {values : ℕ → ℕ} {events : List (Event τ)}
    {s : Kernel τ} (h : exec kernelStep (.init main values) events = .ok s) :
    PlacedInv s ∧ LocksInv s := by
  have hstep (s : Kernel τ) (e : Event τ) (s' : Kernel τ) (h : PlacedInv s ∧ LocksInv s)
      (hs : kernelStep s e = .ok s') : PlacedInv s' ∧ LocksInv s' :=
    ⟨h.1.step hs, h.2.step h.1 hs⟩
  exact exec_preserves hstep ⟨.init main values, .init main values⟩ h

/-- **The locks are safe** in every run. -/
theorem locks_safe [DecidableEq τ] {main : τ} {values : ℕ → ℕ} {events : List (Event τ)}
    {s : Kernel τ} (h : exec kernelStep (.init main values) events = .ok s) : s.LocksSafe :=
  (locksInv_of_exec h).2.toLocksSafe

/-- The main thread hands the lock over to a thread that has queued for it, and which another
    one queues behind. The thread 1 asks again for what it has. -/
theorem locks_safe_handOver :
    ∃ s : Kernel ℕ, exec kernelStep (.init 0 fun _ => 0)
      [.call (.acquire 0), .call (.fork 1), .call (.fork 2), .call .yield, .call (.acquire 0),
        .call (.release 0), .call (.acquire 0), .call (.release 0), .call .yield, .resume,
        .call (.acquire 0)] = .ok s ∧
      (s.history.inside 0 = [1] ∧ s.history.granted 0 = [1] ∧ (s.locks 0).waitingThreads = [2]) ∧
      s.LocksSafe := by
  have hrun : Ends kernelStep (Kernel.init 0 fun _ => 0)
      [.call (.acquire 0), .call (.fork 1), .call (.fork 2), .call .yield, .call (.acquire 0),
        .call (.release 0), .call (.acquire 0), .call (.release 0), .call .yield, .resume,
        .call (.acquire 0)] fun s =>
      s.history.inside 0 = [1] ∧ s.history.granted 0 = [1] ∧ (s.locks 0).waitingThreads = [2] := by
    decide +kernel
  obtain ⟨s, hs, hend⟩ := hrun
  exact ⟨s, hs, hend, locks_safe hs⟩

end Nachos.Threads
